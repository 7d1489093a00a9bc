import EmbeddedSql.Literal.Binding
import EmbeddedSql.Proofs.Text.Boundary
import EmbeddedSql.Proofs.Text.Trimming

namespace EmbeddedSql.Binding

open Text

def firstAt? (p : Char → Bool) (t : Text) : Option Nat :=
  if t.any p then some (bytes (t.takeWhile fun c => !p c)) else none

def lastAt? (p : Char → Bool) (t : Text) : Option Nat :=
  match t.reverse.dropWhile fun c => !p c with
  | [] => none
  | _ :: front => some (bytes front)

def stripLast? (p : Char → Bool) (t : Text) : Option Text :=
  if t.getLast?.any p then some t.dropLast else none

def trailingName? (t : Text) : Option Text :=
  t.slice? (bytes (t.reverse.dropWhile isNameChar)) t.bytes

def statementSegment? (t : Text) : Option Text :=
  (t.slice? (((lastAt? isBoundary t).map (· + 1)).getD 0) t.bytes).map trimStart

def beforeType? (segment : Text) : Option Text :=
  match firstAt? (· == ':') segment with
  | some colon => (segment.slice? 0 colon).map trimEnd
  | none => some segment

def assigned? (lhs : Text) : Option (Option Text) :=
  if lhs.getLast?.any fun c => c == '=' || c == '!' || c == '<' || c == '>' then some none
  else do
    let lhs := (stripLast? (fun c => c == ':' || c == '+') lhs).getD lhs
    let segment ← statementSegment? (trimEnd lhs)
    (beforeType? segment).map some

def property? (lhs : Text) : Option (Option Text) := do
  let segment ← statementSegment? (trimEnd lhs)
  if lhs.getLast?.any (fun c => c == ':' || c == '?') || List.contains segment '?' then some none
  else some (some segment)

def target? (language : HostLanguage) (before : Text) : Option (Option Text) :=
  let rest := trimEndWhile (fun c => isBlank c || c == '(') before
  match stripLast? (· == '=') rest with
  | some lhs => assigned? lhs
  | none =>
      match stripLast? (· == ':') rest with
      | some lhs => if language = .javaScript then property? lhs else some none
      | none => some none

/-- The name that a literal is bound to, read by slices of the text before it. There is no answer
where one of them fails, and no name in it where there is none. -/
def boundName? (language : HostLanguage) (before : Text) : Option (Option Text) := do
  match ← target? language before with
  | none => some none
  | some target =>
      let name ← trailingName? target
      some (if name.head?.any fun c => !c.isDigit && c ≠ '.' then some name else none)

def tagName? (before : Text) : Option (Option Text) := do
  let tag ← trailingName? before
  some (if tag.isEmpty || tag.getLast? == some '.' then none else some tag)

theorem reverse_takeWhile_append (p : Char → Bool) (t : Text) :
    (t.reverse.dropWhile p).reverse ++ (t.reverse.takeWhile p).reverse = t := by
  rw [← List.reverse_append, List.takeWhile_append_dropWhile, List.reverse_reverse]

theorem slice?_last (p : Char → Bool) (t : Text) :
    t.slice? (bytes (t.reverse.dropWhile p).reverse) t.bytes =
      some (t.reverse.takeWhile p).reverse := by
  have hrest := RestAt.behind (t.reverse.dropWhile p).reverse (t.reverse.takeWhile p).reverse
  rw [reverse_takeWhile_append] at hrest
  exact hrest.slice?_bytes

theorem trailingName?_eq (t : Text) : trailingName? t = some (nameBack t.reverse) := by
  rw [trailingName?, ← bytes_reverse (t.reverse.dropWhile isNameChar)]
  exact slice?_last isNameChar t

theorem lastAt?_getD {p : Char → Bool} (hp : ∀ c, p c = true → c.utf8Size = 1) (t : Text) :
    ((lastAt? p t).map (· + 1)).getD 0 = bytes (t.reverse.dropWhile fun c => !p c).reverse := by
  rw [lastAt?, bytes_reverse]
  cases hback : t.reverse.dropWhile fun c => !p c with
  | nil => rfl
  | cons c back =>
      have hnot := List.head?_dropWhile_not (fun c => !p c) t.reverse
      rw [hback] at hnot
      rw [bytes_cons, hp c (by simpa using hnot), Nat.add_comm]
      rfl

theorem utf8Size_of_isBoundary {c : Char} (h : isBoundary c = true) : c.utf8Size = 1 := by
  simp only [isBoundary, Bool.or_eq_true, beq_iff_eq] at h
  rcases h with ((((rfl | rfl) | rfl) | rfl) | rfl) | rfl <;> rfl

theorem statementSegment?_reverse (back : Text) :
    statementSegment? (trimEnd back.reverse) = some (segmentBack back) := by
  rw [statementSegment?, lastAt?_getD fun _ => utf8Size_of_isBoundary, slice?_last, segmentBack,
    trimEnd, trimEndWhile, List.reverse_reverse, List.reverse_reverse]
  rfl

theorem slice?_firstAt {p : Char → Bool} {t : Text} {n : Nat} (h : firstAt? p t = some n) :
    t.slice? 0 n = some (t.takeWhile fun c => !p c) := by
  obtain ⟨-, hn⟩ := Option.ite_none_right_eq_some.1 h
  obtain rfl := Option.some.inj hn
  have hslice := RestAt.slice?_front (t.takeWhile fun c => !p c) (t.dropWhile fun c => !p c)
  rwa [List.takeWhile_append_dropWhile] at hslice

theorem stripLast?_reverse (p : Char → Bool) (back : Text) :
    stripLast? p back.reverse =
      match back with
      | [] => none
      | c :: r => if p c then some r.reverse else none := by
  cases back <;> simp [stripLast?]

theorem not_beq_eq (d : Char) : (fun c : Char => !(c == d)) = fun c => decide (c ≠ d) := by
  funext c
  rw [decide_not]
  rfl

theorem beforeType?_eq (segment : Text) : beforeType? segment =
    some (if List.contains segment ':' then trimEnd (segment.takeWhile (· ≠ ':'))
      else segment) := by
  have hcontains : List.contains segment ':' = segment.any (· == ':') := by
    rw [List.contains_eq_any_beq]
    congr 1
    funext c
    exact BEq.comm
  rw [beforeType?, hcontains]
  cases hcolon : firstAt? (· == ':') segment with
  | none => rw [if_neg (by simpa [firstAt?] using hcolon)]
  | some n =>
      dsimp only
      rw [slice?_firstAt hcolon, if_pos (Option.ite_none_right_eq_some.1 hcolon).1, not_beq_eq]
      rfl

theorem beforeType?_segment (back : Text) :
    (statementSegment? (trimEnd back.reverse)).bind
        (fun segment => (beforeType? segment).map some) =
      some (some (if List.contains (segmentBack back) ':' then
        trimEnd ((segmentBack back).takeWhile (· ≠ ':')) else segmentBack back)) := by
  rw [statementSegment?_reverse, Option.bind_some, beforeType?_eq]
  rfl

theorem assigned?_reverse (back : Text) : assigned? back.reverse = some (assignedBack? back) := by
  unfold assigned? assignedBack?
  rw [List.getLast?_reverse]
  split
  · rfl
  · rw [stripLast?_reverse]
    cases back with
    | nil => exact beforeType?_segment []
    | cons c r =>
        dsimp only
        by_cases hc : (c == ':' || c == '+') = true
        · rw [if_pos hc, if_pos hc]
          exact beforeType?_segment r
        · rw [if_neg hc, if_neg hc]
          exact beforeType?_segment (c :: r)

theorem property?_reverse (back : Text) : property? back.reverse = some (propertyBack? back) := by
  rw [property?, propertyBack?, statementSegment?_reverse, List.getLast?_reverse]
  exact (apply_ite some _ _ _).symm

theorem target?_reverse (language : HostLanguage) (back : Text) :
    target? language back.reverse = some (targetBack? language back) := by
  rw [target?, targetBack?, trimEndWhile, List.reverse_reverse]
  cases back.dropWhile fun c => isBlank c || c == '(' with
  | nil => rfl
  | cons c r =>
      rw [stripLast?_reverse, stripLast?_reverse]
      dsimp only
      by_cases heq : c = '='
      · subst heq
        exact assigned?_reverse r
      · by_cases hcolon : c = ':'
        · subst hcolon
          cases language with
          | python => rfl
          | javaScript => exact property?_reverse r
        · rw [if_neg (by simpa using heq), if_neg (by simpa using hcolon),
            if_neg (by simpa using heq), if_neg (by simp [hcolon])]

theorem boundName?_reverse (language : HostLanguage) (back : Text) :
    boundName? language back.reverse = some (identifierBack? language back) := by
  rw [boundName?, target?_reverse, identifierBack?]
  cases targetBack? language back with
  | none => rfl
  | some target =>
      rw [Option.bind_eq_bind, Option.bind_some]
      dsimp only
      rw [trailingName?_eq]
      rfl

theorem tagName?_reverse (back : Text) : tagName? back.reverse = some (tagBack? back) := by
  rw [tagName?, trailingName?_eq, List.reverse_reverse, tagBack?]
  rfl

end EmbeddedSql.Binding
