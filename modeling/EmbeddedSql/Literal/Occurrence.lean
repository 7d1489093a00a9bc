import EmbeddedSql.Text.Basic

namespace EmbeddedSql

inductive HostLanguage where
  | python
  | javaScript
  deriving DecidableEq, Repr

namespace HostLanguage

def names : List (String × HostLanguage) :=
  [("python", .python), ("py", .python), ("javascript", .javaScript), ("js", .javaScript),
   ("typescript", .javaScript), ("ts", .javaScript)]

def extensions : List (String × HostLanguage) :=
  [("py", .python), ("pyi", .python), ("js", .javaScript), ("jsx", .javaScript),
   ("mjs", .javaScript), ("cjs", .javaScript), ("ts", .javaScript), ("tsx", .javaScript),
   ("mts", .javaScript), ("cts", .javaScript)]

def ofName? (name : Text) : Option HostLanguage :=
  (names.find? fun entry => entry.1.toList == name.lower).map Prod.snd

def ofExtension? (extension : Text) : Option HostLanguage :=
  (extensions.find? fun entry => entry.1.toList == extension.lower).map Prod.snd

end HostLanguage

inductive QuoteStyle where
  | single
  | double
  | tripleSingle
  | tripleDouble
  | template
  deriving DecidableEq, Repr

namespace QuoteStyle

def isBlock : QuoteStyle → Bool
  | .tripleSingle | .tripleDouble | .template => true
  | .single | .double => false

def quote : QuoteStyle → Char
  | .single | .tripleSingle => Text.singleQuote
  | .double | .tripleDouble => Text.doubleQuote
  | .template => Text.backtick

def isTriple : QuoteStyle → Bool
  | .tripleSingle | .tripleDouble => true
  | .single | .double | .template => false

def delimiter (s : QuoteStyle) : Text :=
  if s.isTriple then [s.quote, s.quote, s.quote] else [s.quote]

def description : QuoteStyle → String
  | .single => "single-quoted"
  | .double => "double-quoted"
  | .tripleSingle => "triple single-quoted"
  | .tripleDouble => "triple double-quoted"
  | .template => "template"

end QuoteStyle

structure Occurrence where
  text : Text
  identifier : Option Text
  start : Nat
  stop : Nat
  style : QuoteStyle
  deriving DecidableEq, Repr

def Occurrence.detached (text : Text) (identifier : Option Text) (style : QuoteStyle) :
    Occurrence :=
  ⟨text, identifier, 0, text.bytes, style⟩

structure Revision where
  occurrence : Occurrence
  replacement : Text
  changed : Bool
  deriving DecidableEq, Repr

def Revision.unchanged (o : Occurrence) : Revision := ⟨o, o.text, false⟩

end EmbeddedSql
