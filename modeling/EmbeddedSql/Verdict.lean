import EmbeddedSql.Literal.Occurrence
import EmbeddedSql.Settings
import EmbeddedSql.Text.Case
import EmbeddedSql.Token.Lexer

namespace EmbeddedSql

section

open Text

def beginsWord (previous : Option Char) (c : Char) (next : Option Char) : Bool :=
  previous.any fun p =>
    (isLowercase p && isUppercase c) ||
      (isUppercase p && isUppercase c && next.any isLowercase)

def wordsFrom (previous : Option Char) : Text → Text × List Text
  | [] => ([], [])
  | c :: r =>
      if isLetter c then
        let (word, words) := wordsFrom (some c) r
        if beginsWord previous c r.head? then ([], (c :: word) :: words) else (c :: word, words)
      else
        let (word, words) := wordsFrom none r
        ([], if word.isEmpty then words else word :: words)

def identifierWords (name : Text) : List Text :=
  let (word, words) := wordsFrom none name
  if word.isEmpty then words else word :: words

end

inductive Verdict where
  | name (word : Text)
  | content (leading structural : Text)
  | none
  deriving DecidableEq, Repr

inductive Confidence where
  | none
  | medium
  | high
  deriving DecidableEq, Repr

namespace Confidence

def rank : Confidence → Nat
  | .none => 0
  | .medium => 1
  | .high => 2

instance : LE Confidence := ⟨fun a b => a.rank ≤ b.rank⟩

instance (a b : Confidence) : Decidable (a ≤ b) := inferInstanceAs (Decidable (a.rank ≤ b.rank))

end Confidence

namespace Verdict

def isSql (v : Verdict) : Bool := v ≠ .none

def confidence : Verdict → Confidence
  | .name _ => .high
  | .content _ _ => .medium
  | .none => .none

def isListed (words : List Text) (word : Text) : Bool := words.any (Text.equalsIgnoringCase word)

def isWord (t : Token) : Bool := t.kind = .keyword || t.kind = .identifier

def nameSignal? (words : List Text) (name : Text) : Option Text :=
  (identifierWords name).find? (isListed words)

def contentSignal? (words : SignalWords) (ts : List Token) : Option (Text × Text) :=
  match ts.filter fun t => t.kind ≠ .blank && t.kind ≠ .comment with
  | [] => Option.none
  | first :: rest =>
      if isWord first && isListed words.statement first.text then
        (rest.find? fun t => isWord t && isListed words.structural t.text).map fun t =>
          (first.text.upper, t.text.upper)
      else Option.none

end Verdict

def classify (v : Vocabulary) (words : SignalWords) (o : Occurrence) : Verdict :=
  if o.text.isAllBlank then .none
  else match o.identifier.bind (Verdict.nameSignal? words.name) with
    | some word => .name word
    | Option.none =>
        match Verdict.contentSignal? words (v.tokenize o.text) with
        | some (leading, structural) => .content leading structural
        | Option.none => .none

end EmbeddedSql
