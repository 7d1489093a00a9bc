import EmbeddedSql.Literal.Occurrence
import EmbeddedSql.Token.Lexer

namespace EmbeddedSql

open Text

namespace Extent

def line? (quote : Char) : Text → Option Nat
  | [] => none
  | [c] => if c == quote then some 0 else none
  | c :: d :: r =>
      if c == backslash then (line? quote r).map (· + 2)
      else if c == '\n' then none
      else if c == quote then some 0
      else (line? quote (d :: r)).map (· + 1)

def triple? (quote : Char) : Text → Option Nat
  | [] => none
  | [_] => none
  | c :: d :: r =>
      if c == backslash then (triple? quote r).map (· + 2)
      else if startsWith (c :: d :: r) [quote, quote, quote] then some 0
      else (triple? quote (d :: r)).map (· + 1)

def template? : Text → Option Nat
  | [] => none
  | c :: r =>
      if c == backslash then (template? (r.drop 1)).map (· + 2)
      else if c == backtick then some 0
      else if c == '$' && r.head? == some openBrace then
        let n := 1 + Lexer.bracedTail 1 (r.drop 1)
        (template? (r.drop n)).map (· + (n + 1))
      else (template? r).map (· + 1)
termination_by t => t.length
decreasing_by all_goals simp; try omega

end Extent

structure Located where
  style : QuoteStyle
  content : Text
  deriving DecidableEq, Repr

namespace Located

def tail (l : Located) : Nat := 2 * l.style.delimiter.length + l.content.length - 1

end Located

def locate? (triples : Bool) (quote : Char) (r : Text) : Option Located :=
  if triples && startsWith r [quote, quote] then
    let body := r.drop 2
    (Extent.triple? quote body).map fun n =>
      ⟨if quote == doubleQuote then .tripleDouble else .tripleSingle, body.take n⟩
  else
    (Extent.line? quote r).map fun n =>
      ⟨if quote == doubleQuote then .double else .single, r.take n⟩

def locateTemplate? (r : Text) : Option Located :=
  (Extent.template? r).map fun n => ⟨.template, r.take n⟩

end EmbeddedSql
