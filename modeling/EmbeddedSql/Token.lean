import EmbeddedSql.Text.Basic

namespace EmbeddedSql

inductive TokenKind where
  | keyword
  | identifier
  | punctuation
  | operator
  | literal
  | comment
  | blank
  deriving DecidableEq, Repr

def TokenKind.isSignificant (k : TokenKind) : Bool := k ≠ .blank

structure Token where
  kind : TokenKind
  text : Text
  offset : Nat
  deriving DecidableEq, Repr

namespace Token

def isSignificant (t : Token) : Bool := t.kind.isSignificant

def isKeyword (t : Token) : Bool := t.kind = .keyword

def isKeywordNamed (t : Token) (word : Text) : Bool :=
  t.isKeyword && t.text.equalsIgnoringCase word

def isKeywordAmong (t : Token) (words : List Text) : Bool := words.any t.isKeywordNamed

def isPunct (t : Token) (c : Char) : Bool := t.kind = .punctuation && t.text == [c]

def isLineComment (t : Token) : Bool := t.kind = .comment && t.text.startsWith ['-', '-']

def forcesBreak (t : Token) : Bool := t.isLineComment || List.contains t.text '\n'

def isOpening (t : Token) : Bool := t.isPunct '(' || t.isPunct '['

def isClosing (t : Token) : Bool := t.isPunct ')' || t.isPunct ']'

def depthAfter (depth : Nat) (t : Token) : Nat :=
  if t.isOpening then depth + 1 else if t.isClosing then depth - 1 else depth

end Token

end EmbeddedSql
