import EmbeddedSql.Error
import EmbeddedSql.Literal.Occurrence

namespace EmbeddedSql

open Text

def quotingFault? (style : QuoteStyle) (replacement : Text) : Option QuotingFault :=
  let endsIn (c : Char) : Bool := replacement.getLast? == some c
  match style with
  | .single | .double =>
      if List.contains replacement '\n' then some .severalLines
      else if endsIn backslash then some .endsInBackslash
      else none
  | .tripleSingle | .tripleDouble =>
      if style.delimiter.occursIn replacement then some (.containsDelimiter style.delimiter)
      else if endsIn style.quote then some (.endsInQuote style.quote)
      else if endsIn backslash then some .endsInBackslash
      else none
  | .template => if endsIn backslash then some .endsInBackslash else none

def quotingError? (o : Occurrence) (replacement : Text) : Option QuotingError :=
  (quotingFault? o.style replacement).map fun fault => ⟨o.start, o.stop, o.style, fault⟩

structure Spliced where
  text : Text
  failures : List QuotingError
  deriving DecidableEq, Repr

/-- The text before a literal and the text after it, in a text `rest` that begins at byte `cursor`.
There is none if the literal begins before that or does not stand there any more. -/
def cut? (cursor : Nat) (rest : Text) (o : Occurrence) : Option (Text × Text) :=
  if cursor ≤ o.start && o.start ≤ o.stop then
    (rest.splitAtByte? (o.start - cursor)).bind fun (gap, tail) =>
      (tail.splitAtByte? (o.stop - o.start)).bind fun (old, tail) =>
        if old = o.text then some (gap, tail) else none
  else none

def spliceFrom (cursor : Nat) (rest : Text) : List Revision → Text
  | [] => rest
  | r :: revisions =>
      match cut? cursor rest r.occurrence with
      | some (gap, tail) => gap ++ r.replacement ++ spliceFrom r.occurrence.stop tail revisions
      | none => spliceFrom cursor rest revisions

def eligible (revisions : List Revision) : List Revision :=
  revisions.filter fun r => r.changed && (quotingError? r.occurrence r.replacement).isNone

def splice (source : Text) (revisions : List Revision) : Spliced where
  text := spliceFrom 0 source
    ((eligible revisions).mergeSort fun a b => a.occurrence.start ≤ b.occurrence.start)
  failures := (revisions.filter Revision.changed).filterMap fun r =>
    quotingError? r.occurrence r.replacement

end EmbeddedSql
