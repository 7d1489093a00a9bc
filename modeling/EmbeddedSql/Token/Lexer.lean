import EmbeddedSql.Dialect
import EmbeddedSql.Text.Basic
import EmbeddedSql.Text.Letter
import EmbeddedSql.Token

namespace EmbeddedSql.Lexer

open Text

def isWordChar (c : Char) : Bool := c.isAlphanum || c == '_'

def isIdentifierChar (c : Char) : Bool := isAlphanumeric c || c == '_' || c == '.'

def startsIdentifier (c : Char) : Bool := c.isAlpha || c == '_'

def isBlankEscape (c : Char) : Bool := c == 'n' || c == 't' || c == 'r'

def blankTail : Text → Nat
  | [] => 0
  | [c] => if isAsciiBlank c then 1 else 0
  | c :: d :: r =>
      if isAsciiBlank c then 1 + blankTail (d :: r)
      else if c == backslash && isBlankEscape d then 2 + blankTail r
      else 0

def quotedTail (quote : Char) (doubled : Bool) : Text → Nat
  | [] => 0
  | [_] => 1
  | c :: d :: r =>
      if c == backslash then 2 + quotedTail quote doubled r
      else if c == quote then
        if doubled && d == quote then 2 + quotedTail quote doubled r else 1
      else 1 + quotedTail quote doubled (d :: r)

/-- Up to and with the next backslash that is followed by `quote`: the end of a run whose quotes
the enclosing literal escapes. -/
def escapedQuoteTail (quote : Char) : Text → Nat
  | [] => 0
  | [_] => 1
  | c :: d :: r =>
      if c == backslash then
        if d == quote then 2 else 2 + escapedQuoteTail quote r
      else 1 + escapedQuoteTail quote (d :: r)

def lineCommentTail : Text → Nat
  | [] => 0
  | c :: r =>
      if c == '\n' then 0
      else if c == backslash && (r.head? == some 'n' || r.head? == some 'r') then 0
      else 1 + lineCommentTail r

def blockCommentTail : Text → Nat
  | [] => 0
  | [_] => 1
  | c :: d :: r => if c == '*' && d == '/' then 2 else 1 + blockCommentTail (d :: r)

def delimitedTail (delimiter : Text) : Text → Nat
  | [] => 0
  | c :: r =>
      if startsWith (c :: r) delimiter then delimiter.length
      else 1 + delimitedTail delimiter r

def bracedTail (depth : Nat) : Text → Nat
  | [] => 0
  | c :: r =>
      if c == openBrace then 1 + bracedTail (depth + 1) r
      else if c == closeBrace then
        if depth ≤ 1 then 1 else 1 + bracedTail (depth - 1) r
      else 1 + bracedTail depth r

def identifierTail (t : Text) : Nat := (t.takeWhile isIdentifierChar).length

def digitsTail (t : Text) : Nat := (t.takeWhile Char.isDigit).length

def dropDigits (t : Text) : Text := t.dropWhile Char.isDigit

def dropFraction : Text → Text
  | [] => []
  | c :: r => if c == '.' then dropDigits r else c :: r

def dropExponent : Text → Text
  | [] => []
  | c :: r =>
      if c == 'e' || c == 'E' then
        let digits := match r with
          | [] => r
          | s :: r' => if s == '+' || s == '-' then r' else r
        if digits.head?.any Char.isDigit then dropDigits digits else c :: r
      else c :: r

def numberTail (c : Char) (r : Text) : Nat :=
  let rest :=
    if c == '0' && (r.head? == some 'x' || r.head? == some 'X') then
      (r.drop 1).dropWhile Char.isHexDigit
    else if c == '.' then dropExponent (dropDigits r)
    else dropExponent (dropFraction (dropDigits r))
  r.length - (rest.dropWhile isWordChar).length

def dollarTail? (r : Text) : Option Nat :=
  let tag := r.takeWhile isWordChar
  let delimiter := '$' :: tag ++ ['$']
  match r.drop tag.length with
  | '$' :: body => some (tag.length + 1 + delimitedTail delimiter body)
  | _ => none

def namedPlaceholderTail? : Text → Option Nat
  | '(' :: r =>
      let name := r.takeWhile isWordChar
      match r.drop name.length with
      | ')' :: conversion :: _ =>
          if !name.isEmpty && conversion.isAlpha then some (name.length + 3) else none
      | _ => none
  | _ => none

def isOperatorChar (c : Char) : Bool :=
  ['=', '<', '>', '+', '-', '*', '/', '%', '^', '~', '!', '&', '|', '#', '@'].contains c

def longOperators : List Text :=
  ["<=>", "->>", "#>>", "!~*", "<>", "!=", "<=", ">=", "||", "::", "->", "#>", "@>", "<@",
   "&&", "==", "~*", "!~"].map String.toList

def operatorTail (c : Char) (r : Text) : Nat :=
  match longOperators.find? (startsWith (c :: r)) with
  | some op => op.length - 1
  | none => 0

def afterBackslash : Text → TokenKind × Nat
  | [] => (.punctuation, 0)
  | d :: r =>
      if isBlankEscape d then (.blank, 1 + blankTail r)
      else if d == singleQuote || d == doubleQuote then (.literal, 1 + escapedQuoteTail d r)
      -- before a blank the backslash stands alone, and the blank stays a blank
      else if isBlank d then (.punctuation, 0)
      else (.punctuation, 1)

def afterDollar (r : Text) : TokenKind × Nat :=
  match r with
  | [] => (.punctuation, 0)
  | d :: r' =>
      if d.isDigit then (.literal, digitsTail r)
      else if d == openBrace then (.literal, 1 + bracedTail 1 r')
      else match dollarTail? r with
        | some n => (.literal, n)
        | none => (.punctuation, 0)

def afterColon (r : Text) : TokenKind × Nat :=
  match r with
  | [] => (.punctuation, 0)
  | d :: _ =>
      if d == ':' then (.operator, 1)
      else if startsIdentifier d then (.literal, identifierTail r)
      else (.punctuation, 0)

def afterPercent (r : Text) : TokenKind × Nat :=
  match r with
  | [] => (.operator, 0)
  | d :: _ =>
      if d == 's' || d == 'd' || d == 'b' then (.literal, 1)
      else match namedPlaceholderTail? r with
        | some n => (.literal, n)
        | none => (.operator, 0)

def isPunctuationChar (c : Char) : Bool := ['(', ')', ',', ';', '.', '[', ']'].contains c

/-- The lexeme that starts with `c`, before `r`: its kind, with keywords still counted as
identifiers, and how many characters of `r` belong to it. -/
def lexeme (c : Char) (r : Text) : TokenKind × Nat :=
  if isAsciiBlank c then (.blank, blankTail r)
  else if c == backslash then afterBackslash r
  else if c == singleQuote || c == doubleQuote || c == backtick then
    (.literal, quotedTail c true r)
  else if c == '-' && r.head? == some '-' then (.comment, 1 + lineCommentTail (r.drop 1))
  else if c == '/' && r.head? == some '*' then (.comment, 1 + blockCommentTail (r.drop 1))
  else if c.isDigit || (c == '.' && r.head?.any Char.isDigit) then (.literal, numberTail c r)
  else if c == '$' then afterDollar r
  else if c == openBrace then (.literal, bracedTail 1 r)
  else if c == '?' then (.literal, 0)
  else if c == ':' then afterColon r
  else if c == '@' && r.head?.any startsIdentifier then (.literal, identifierTail r)
  else if c == '%' then afterPercent r
  else if isPunctuationChar c then (.punctuation, 0)
  else if isOperatorChar c then (.operator, operatorTail c r)
  else if isLetter c || c == '_' then (.identifier, identifierTail r)
  else (.punctuation, 0)

def token (v : Vocabulary) (kind : TokenKind) (lexeme : Text) (offset : Nat) : Token :=
  match kind with
  | .blank => ⟨.blank, [' '], offset⟩
  | .identifier =>
      if !List.contains lexeme '.' && v.reserves lexeme then ⟨.keyword, lexeme, offset⟩
      else ⟨.identifier, lexeme, offset⟩
  | kind => ⟨kind, lexeme, offset⟩

def tokensFrom (v : Vocabulary) (offset : Nat) : Text → List Token
  | [] => []
  | c :: r =>
      let (kind, n) := lexeme c r
      let piece : Text := c :: r.take n
      token v kind piece offset :: tokensFrom v (offset + piece.bytes) (r.drop n)
termination_by t => t.length
decreasing_by simp only [List.length_drop, List.length_cons]; omega

end EmbeddedSql.Lexer

namespace EmbeddedSql

def Vocabulary.tokenize (v : Vocabulary) (t : Text) : List Token := Lexer.tokensFrom v 0 t

end EmbeddedSql
