import EmbeddedSql.Token

namespace EmbeddedSql.Layout

open Text

def functionKeywords : List Text := ["LEFT", "RIGHT", "REPLACE", "IF"].map String.toList

def valueKeywords : List Text := ["END", "NULL", "TRUE", "FALSE"].map String.toList

def isAmongIgnoringCase (words : List Text) (word : Text) : Bool :=
  words.any fun w => equalsIgnoringCase w word

def isUnary (t : Token) (previous : Option Token) : Bool :=
  t.kind = .operator && (t.text == ['-'] || t.text == ['+'] || t.text == ['~']) &&
    match previous with
    | none => true
    | some p =>
        match p.kind with
        | .operator => true
        | .punctuation => p.isPunct '(' || p.isPunct ',' || p.isPunct '['
        | .keyword => !isAmongIgnoringCase valueKeywords p.text
        | _ => false

def isCast (t : Token) : Bool := t.kind = .operator && t.text == [':', ':']

def isQuoted (t : Token) : Bool :=
  t.kind = .literal &&
    t.text.head?.any fun c => c == doubleQuote || c == backtick || c == singleQuote

def separated (p : Token) (unary : Bool) (parenSpace : Bool) (t : Token) : Bool :=
  -- two signs that touch would begin a comment
  if unary then t.text.head? == some '-'
  -- a bare backslash would shield whatever touches it
  else if p.isPunct backslash then true
  else if t.isPunct ',' || t.isPunct ';' || t.isClosing then false
  else if p.isOpening then false
  else if isCast p || isCast t then false
  else if t.isPunct '.' then !(isQuoted p || p.isClosing)
  else if p.isPunct '.' || (p.kind = .identifier && p.text.getLast? == some '.') then
    !(t.kind = .identifier || isQuoted t || (t.kind = .operator && t.text == ['*']))
  else if t.isOpening then
    match p.kind with
    | .identifier => parenSpace
    | .keyword => !isAmongIgnoringCase functionKeywords p.text
    | _ => true
  else true

def needsSpace (previous : Option Token) (unary : Bool) (parenSpace : Bool) (t : Token) : Bool :=
  previous.any fun p => separated p unary parenSpace t

end EmbeddedSql.Layout
