import EmbeddedSql.Literal.Binding
import EmbeddedSql.Literal.Extent
import EmbeddedSql.Literal.Occurrence

namespace EmbeddedSql.Scan

open Text

/-- Where a step begins: the text before it, nearest character first, its length in bytes, and the
number of open brackets. -/
structure Place where
  back : Text := []
  offset : Nat := 0
  depth : Nat := 0
  deriving Repr

def Place.advance (p : Place) (piece : Text) (depth : Nat) : Place :=
  ⟨piece.reverse ++ p.back, p.offset + piece.bytes, depth⟩

/-- What a step takes beyond its first character, the brackets open after it, and what it found. -/
structure Step where
  length : Nat := 0
  depth : Nat
  found : Option Occurrence := none
  deriving Repr

def steps (step : Place → Char → Text → Step) (p : Place) : Text → List Occurrence
  | [] => []
  | c :: r =>
      let s := step p c r
      s.found.toList ++ steps step (p.advance (c :: r.take s.length) s.depth) (r.drop s.length)
termination_by t => t.length
decreasing_by simp only [List.length_drop, List.length_cons]; omega

def occurrence (p : Place) (lead : Text) (identifier : Option Text) (l : Located) : Occurrence :=
  let start := p.offset + lead.bytes + l.style.delimiter.bytes
  ⟨l.content, identifier, start, start + l.content.bytes, l.style⟩

def isQuote (c : Char) : Bool := c == singleQuote || c == doubleQuote

def lineTail (r : Text) : Nat := (r.takeWhile (· ≠ '\n')).length

def isWordChar (c : Char) : Bool :=
  c.isAlphanum || c == '_' || c == '$' || !isAscii c

def stringMarks : List Text := ["r", "u", "f", "b", "br", "rb", "fr", "rf"].map String.toList

def isStatement (p : Place) : Bool :=
  p.depth = 0 && (p.back.takeWhile (· ≠ '\n')).all isBlank &&
    ((p.back.dropWhile (· ≠ '\n')).dropWhile fun c => c == '\n' || c == '\r').head? ≠ some backslash

def pythonLiteral (p : Place) (mark : Text) (quote : Char) (r : Text) : Step :=
  match locate? true quote r with
  | none => { length := mark.length, depth := p.depth }
  | some l =>
      let skipped := List.contains mark 'b' || List.contains mark 'B' || isStatement p
      { length := mark.length + l.tail
        depth := p.depth
        found :=
          if skipped then none
          else some (occurrence p mark (Binding.identifierBack? .python p.back) l) }

def pythonWord (p : Place) (c : Char) (r : Text) : Step :=
  let word := c :: r.takeWhile isWordChar
  match r.dropWhile isWordChar with
  | q :: rest =>
      if isQuote q && stringMarks.contains (lower word) then pythonLiteral p word q rest
      else { length := word.length - 1, depth := p.depth }
  | [] => { length := word.length - 1, depth := p.depth }

def pythonStep (p : Place) (c : Char) (r : Text) : Step :=
  if c == '#' then { length := lineTail r, depth := p.depth }
  else if isQuote c then pythonLiteral p [] c r
  else if c == '(' || c == '[' || c == openBrace then { depth := p.depth + 1 }
  else if c == ')' || c == ']' || c == closeBrace then { depth := p.depth - 1 }
  else if isWordChar c then pythonWord p c r
  else { depth := p.depth }

def javaScriptStep (p : Place) (c : Char) (r : Text) : Step :=
  if c == '/' && r.head? == some '/' then { length := lineTail r, depth := p.depth }
  else if c == '/' && r.head? == some '*' then
    { length := 1 + Lexer.blockCommentTail (r.drop 1), depth := p.depth }
  else if isQuote c then
    match locate? false c r with
    | none => { depth := p.depth }
    | some l =>
        { length := l.tail
          depth := p.depth
          found := some (occurrence p [] (Binding.identifierBack? .javaScript p.back) l) }
  else if c == backtick then
    match locateTemplate? r with
    | none => { length := r.length, depth := p.depth }
    | some l =>
        let identifier :=
          (Binding.tagBack? p.back).orElse fun _ => Binding.identifierBack? .javaScript p.back
        { length := l.tail
          depth := p.depth
          found := some (occurrence p [] identifier l) }
  else { depth := p.depth }

end EmbeddedSql.Scan

namespace EmbeddedSql

def extract (language : HostLanguage) (source : Text) : List Occurrence :=
  match language with
  | .python => Scan.steps Scan.pythonStep {} source
  | .javaScript => Scan.steps Scan.javaScriptStep {} source

end EmbeddedSql
