import EmbeddedSql.Text.Basic

namespace EmbeddedSql.Scan

abbrev backslashByte : UInt8 := 0x5c

abbrev newlineByte : UInt8 := 0x0a

variable {α : Type}

def seek? (wanted : List UInt8) (bs : List UInt8) (i : Nat) : Option Nat :=
  ((bs.drop i).findIdx? wanted.contains).map (i + ·)

inductive Landing (α : Type) where
  | on (n : Nat)
  | stop (answer : α)
  deriving DecidableEq, Repr

theorem le_of_seek? {wanted bs : List UInt8} {i p : Nat} (h : seek? wanted bs i = some p) :
    i ≤ p ∧ ∃ b r, bs.drop p = b :: r ∧ b ∈ wanted := by
  obtain ⟨k, hk, rfl⟩ := Option.map_eq_some_iff.1 h
  obtain ⟨hlt, hwanted, -⟩ := List.findIdx?_eq_some_iff_getElem.1 hk
  refine ⟨Nat.le_add_right i k, (bs.drop i)[k], (bs.drop i).drop (k + 1), ?_,
    by simpa using hwanted⟩
  rw [← List.drop_drop, ← List.drop_eq_getElem_cons]

/-- Search from position `i` on, from one wanted byte to the next. -/
def leap (wanted : List UInt8) (land : Nat → Landing α) (ended : α) (bs : List UInt8) (i : Nat) :
    α :=
  match _h : seek? wanted bs i with
  | none => ended
  | some p =>
      match land p with
      | .on n => leap wanted land ended bs (p + 1 + n)
      | .stop answer => answer
termination_by bs.length - i
decreasing_by
  obtain ⟨hle, b, r, hdrop, -⟩ := le_of_seek? _h
  have hlength := congrArg List.length hdrop
  rw [List.length_drop, List.length_cons] at hlength
  omega

section

variable {wanted bs r : List UInt8} {land : Nat → Landing α} {ended : α} {i : Nat} {b : UInt8}

theorem leap_eq (wanted : List UInt8) (land : Nat → Landing α) (ended : α) (bs : List UInt8)
    (i : Nat) : leap wanted land ended bs i =
      match seek? wanted bs i with
      | none => ended
      | some p =>
          match land p with
          | .on n => leap wanted land ended bs (p + 1 + n)
          | .stop answer => answer := by
  rw [leap]
  split
  next h => rw [h]
  next p h => rw [h]

theorem leap_of_length_le (h : bs.length ≤ i) : leap wanted land ended bs i = ended := by
  rw [leap_eq, seek?, List.drop_eq_nil_of_le h]
  rfl

theorem leap_idle (h : bs.drop i = b :: r) (hb : b ∉ wanted) :
    leap wanted land ended bs i = leap wanted land ended bs (i + 1) := by
  have hrest : bs.drop (i + 1) = r := by rw [← List.drop_drop, h, List.drop_one, List.tail_cons]
  have hseek : seek? wanted bs i = seek? wanted bs (i + 1) := by
    rw [seek?, seek?, h, hrest, List.findIdx?_cons, if_neg (by simpa using hb), Option.map_map]
    congr 1
    funext k
    show i + (k + 1) = i + 1 + k
    rw [Nat.add_right_comm, Nat.add_assoc]
  rw [leap_eq, hseek, ← leap_eq]

theorem leap_land (h : bs.drop i = b :: r) (hb : b ∈ wanted) :
    leap wanted land ended bs i =
      match land i with
      | .on n => leap wanted land ended bs (i + 1 + n)
      | .stop answer => answer := by
  have hseek : seek? wanted bs i = some i := by
    rw [seek?, h, List.findIdx?_cons, if_pos (by simpa using hb)]
    rfl
  rw [leap_eq, hseek]

end

def quotedEnd (quote : UInt8) (doubled : Bool) (rest : List UInt8) : Nat :=
  let bs := quote :: rest
  leap [quote, backslashByte]
    (fun p =>
      if bs[p]? = some backslashByte then .on 1
      else if doubled && bs[p + 1]? = some quote then .on 1
      else .stop (p + 1))
    bs.length bs 1

def escapedQuoteEnd (quote : UInt8) (bs : List UInt8) : Nat :=
  leap [backslashByte]
    (fun p => if bs[p + 1]? = some quote then .stop (p + 2) else .on 1) bs.length bs 2

def lineQuoteEnd? (quote : UInt8) (bs : List UInt8) (start : Nat) : Option Nat :=
  leap [quote, backslashByte, newlineByte]
    (fun p =>
      if bs[p]? = some backslashByte then .on 1
      else if bs[p]? = some newlineByte then .stop none
      else .stop (some p))
    none bs start

def tripleQuoteEnd? (quote : UInt8) (bs : List UInt8) (start : Nat) : Option Nat :=
  leap [quote, backslashByte]
    (fun p =>
      if bs[p]? = some backslashByte then .on 1
      else if [quote, quote, quote].isPrefixOf (bs.drop p) then .stop (some p)
      else .on 0)
    none bs start

/-- Where a reader stands: the next byte counts, behind some quotes in a row, or it is inert. -/
inductive Phase where
  | live (quotes : Nat)
  | inert
  deriving DecidableEq, Repr

inductive Reading (α : Type) where
  | next (phase : Phase)
  | done (answer : α)
  deriving DecidableEq, Repr

structure Reader (α : Type) where
  step : Phase → Nat → UInt8 → Reading α
  ended : α

def Reader.run (A : Reader α) (phase : Phase) (p : Nat) : List UInt8 → α
  | [] => A.ended
  | b :: r =>
      match A.step phase p b with
      | .next phase => A.run phase (p + 1) r
      | .done answer => answer

def quotedReader (quote : UInt8) (doubled : Bool) (length : Nat) : Reader Nat where
  step
    | .inert, _, _ => .next (.live 0)
    | .live n, p, b =>
        if doubled && n = 1 then
          if b = quote then .next (.live 0) else .done p
        else if b = backslashByte then .next .inert
        else if b = quote then
          if doubled then .next (.live 1) else .done (p + 1)
        else .next (.live 0)
  ended := length

def escapedQuoteReader (quote : UInt8) (length : Nat) : Reader Nat where
  step
    | .inert, p, b => if b = quote then .done (p + 1) else .next (.live 0)
    | .live _, _, b => if b = backslashByte then .next .inert else .next (.live 0)
  ended := length

def lineReader (quote : UInt8) : Reader (Option Nat) where
  step
    | .inert, _, _ => .next (.live 0)
    | .live _, p, b =>
        if b = backslashByte then .next .inert
        else if b = newlineByte then .done none
        else if b = quote then .done (some p)
        else .next (.live 0)
  ended := none

def tripleReader (quote : UInt8) : Reader (Option Nat) where
  step
    | .inert, _, _ => .next (.live 0)
    | .live n, p, b =>
        if b = backslashByte then .next .inert
        else if b = quote then
          if n = 2 then .done (some (p - 2)) else .next (.live (n + 1))
        else .next (.live 0)
  ended := none

section

variable {A : Reader α} {wanted : List UInt8}

theorem Reader.run_idle
    (hidle : ∀ p b, b ∉ wanted → A.step (.live 0) p b = .next (.live 0)) (p : Nat)
    (bs : List UInt8) :
    A.run (.live 0) p bs =
      match bs.findIdx? wanted.contains with
      | none => A.ended
      | some k => A.run (.live 0) (p + k) (bs.drop k) := by
  induction bs generalizing p with
  | nil => rfl
  | cons b bs ih =>
      by_cases hb : b ∈ wanted
      · have hfirst : (b :: bs).findIdx? wanted.contains = some 0 := by
          simp [List.findIdx?_cons, hb]
        rw [hfirst]
        rfl
      · have hlater : (b :: bs).findIdx? wanted.contains =
            (bs.findIdx? wanted.contains).map (· + 1) := by simp [List.findIdx?_cons, hb]
        rw [hlater, run, hidle p b hb]
        dsimp only
        rw [ih (p + 1)]
        cases bs.findIdx? wanted.contains with
        | none => rfl
        | some k =>
            dsimp only [Option.map_some]
            rw [List.drop_succ_cons, Nat.add_right_comm, Nat.add_assoc]

theorem leap_eq_run {land : Nat → Landing α} {bs : List UInt8}
    (hidle : ∀ p b, b ∉ wanted → A.step (.live 0) p b = .next (.live 0))
    (hland : ∀ p b r, bs.drop p = b :: r → b ∈ wanted → A.run (.live 0) p (b :: r) =
      match land p with
      | .on n => A.run (.live 0) (p + 1 + n) (r.drop n)
      | .stop answer => answer) (i : Nat) :
    leap wanted land A.ended bs i = A.run (.live 0) i (bs.drop i) := by
  induction hn : bs.length - i using Nat.strongRecOn generalizing i with
  | ind n ih =>
      rw [leap, Reader.run_idle hidle]
      split
      next hseek =>
        rw [Option.map_eq_none_iff.1 hseek]
      next p hseek =>
        obtain ⟨hle, b, r, hdrop, hb⟩ := le_of_seek? hseek
        obtain ⟨k, hk, rfl⟩ := Option.map_eq_some_iff.1 hseek
        have hlength := congrArg List.length hdrop
        rw [List.length_drop, List.length_cons] at hlength
        rw [hk]
        dsimp only
        rw [List.drop_drop, hdrop, hland _ b r hdrop hb]
        cases land (i + k) with
        | stop answer => rfl
        | on m =>
            have hrest : r.drop m = bs.drop (i + k + 1 + m) := by
              rw [← List.drop_drop, ← List.drop_drop, hdrop, List.drop_one, List.tail_cons]
            dsimp only
            rw [hrest]
            exact ih _ (by omega) _ rfl

end

theorem getElem?_of_drop {bs r : List UInt8} {p : Nat} {b : UInt8} (h : bs.drop p = b :: r) :
    bs[p]? = some b ∧ bs[p + 1]? = r.head? := by
  have hlater : bs.drop (p + 1) = r := by
    rw [← List.drop_drop, h, List.drop_one, List.tail_cons]
  rw [← List.head?_drop, ← List.head?_drop, h, hlater]
  exact ⟨rfl, rfl⟩

section

variable (quote : UInt8) (doubled : Bool) (length p : Nat) (b : UInt8)

theorem quotedReader_idle (hb : b ∉ [quote, backslashByte]) :
    (quotedReader quote doubled length).step (.live 0) p b = .next (.live 0) := by
  simp only [List.mem_cons, List.not_mem_nil, or_false, not_or] at hb
  simp [quotedReader, hb.1, hb.2]

theorem escapedQuoteReader_idle (hb : b ∉ [backslashByte]) :
    (escapedQuoteReader quote length).step (.live 0) p b = .next (.live 0) := by
  simp [escapedQuoteReader, mt List.mem_singleton.2 hb]

theorem lineReader_idle (hb : b ∉ [quote, backslashByte, newlineByte]) :
    (lineReader quote).step (.live 0) p b = .next (.live 0) := by
  simp only [List.mem_cons, List.not_mem_nil, or_false, not_or] at hb
  simp [lineReader, hb.1, hb.2]

theorem tripleReader_idle (hb : b ∉ [quote, backslashByte]) :
    (tripleReader quote).step (.live 0) p b = .next (.live 0) := by
  simp only [List.mem_cons, List.not_mem_nil, or_false, not_or] at hb
  simp [tripleReader, hb.1, hb.2]

end

theorem quotedEnd_eq_run (quote : UInt8) (doubled : Bool) (rest : List UInt8) :
    quotedEnd quote doubled rest =
      (quotedReader quote doubled (rest.length + 1)).run (.live 0) 1 rest := by
  refine leap_eq_run (A := quotedReader quote doubled (rest.length + 1))
    (quotedReader_idle quote doubled _) ?_ 1
  intro p b r hdrop hb
  obtain ⟨hhere, hnext⟩ := getElem?_of_drop hdrop
  rw [hhere, hnext]
  by_cases hbackslash : b = backslashByte
  · subst hbackslash
    cases r <;> simp [Reader.run, quotedReader]
  · obtain rfl : b = quote := by simpa [hbackslash] using hb
    cases doubled with
    | false => simp [Reader.run, quotedReader, hbackslash]
    | true =>
        cases r with
        | nil =>
            -- The last byte closes the run, and the run is the whole text.
            have hlength := congrArg List.length hdrop
            rw [List.length_drop, List.length_cons, List.length_singleton] at hlength
            simp [Reader.run, quotedReader, hbackslash]
            omega
        | cons c r =>
            by_cases hc : c = b <;> simp [Reader.run, quotedReader, hbackslash, hc]

theorem escapedQuoteEnd_eq_run (quote : UInt8) (bs : List UInt8) :
    escapedQuoteEnd quote bs =
      (escapedQuoteReader quote bs.length).run (.live 0) 2 (bs.drop 2) := by
  refine leap_eq_run (A := escapedQuoteReader quote bs.length)
    (escapedQuoteReader_idle quote _) ?_ 2
  intro p b r hdrop hb
  obtain rfl := List.mem_singleton.1 hb
  obtain ⟨-, hnext⟩ := getElem?_of_drop hdrop
  rw [hnext]
  cases r with
  | nil => rfl
  | cons c r =>
      by_cases hc : c = quote <;> simp [Reader.run, escapedQuoteReader, hc]

theorem lineQuoteEnd?_eq_run (quote : UInt8) (bs : List UInt8) (start : Nat) :
    lineQuoteEnd? quote bs start = (lineReader quote).run (.live 0) start (bs.drop start) := by
  refine leap_eq_run (A := lineReader quote) (lineReader_idle quote) ?_ start
  intro p b r hdrop hb
  obtain ⟨hhere, -⟩ := getElem?_of_drop hdrop
  rw [hhere]
  by_cases hbackslash : b = backslashByte
  · subst hbackslash
    cases r <;> simp [Reader.run, lineReader]
  · by_cases hnewline : b = newlineByte
    · subst hnewline
      simp [Reader.run, lineReader, hbackslash]
    · obtain rfl : b = quote := by simpa [hbackslash, hnewline] using hb
      simp [Reader.run, lineReader, hbackslash, hnewline]

theorem run_tripleReader_live {quote : UInt8} {bs : List UInt8} (h : bs.head? ≠ some quote)
    (n p : Nat) :
    (tripleReader quote).run (.live n) p bs = (tripleReader quote).run (.live 0) p bs := by
  cases bs with
  | nil => rfl
  | cons b r =>
      have hb : b ≠ quote := fun hb => h (by rw [hb, List.head?_cons])
      simp [Reader.run, tripleReader, hb]

section

variable {quote : UInt8} (hquote : quote ≠ backslashByte)

include hquote

theorem run_tripleReader_live_quote (n p : Nat) (bs : List UInt8) :
    (tripleReader quote).run (.live n) p (quote :: bs) =
      if n = 2 then some (p - 2) else (tripleReader quote).run (.live (n + 1)) (p + 1) bs := by
  have hstep : (tripleReader quote).step (.live n) p quote =
      if n = 2 then .done (some (p - 2)) else .next (.live (n + 1)) := by
    simp [tripleReader, hquote]
  rw [Reader.run, hstep]
  by_cases hn : n = 2
  · simp only [if_pos hn]
  · simp only [if_neg hn]

theorem run_tripleReader_one {bs : List UInt8} (h : ¬[quote, quote] <+: bs) (p : Nat) :
    (tripleReader quote).run (.live 1) p bs = (tripleReader quote).run (.live 0) p bs := by
  by_cases hfirst : bs.head? = some quote
  · obtain ⟨r, rfl⟩ := List.head?_eq_some_iff.1 hfirst
    have hsecond : r.head? ≠ some quote := by
      intro hsecond
      obtain ⟨r, rfl⟩ := List.head?_eq_some_iff.1 hsecond
      exact h (List.prefix_append [quote, quote] r)
    rw [run_tripleReader_live_quote hquote, run_tripleReader_live_quote hquote]
    exact (run_tripleReader_live hsecond 2 _).trans (run_tripleReader_live hsecond 1 _).symm
  · exact run_tripleReader_live hfirst 1 p

theorem run_tripleReader_quote (p : Nat) (bs : List UInt8) :
    (tripleReader quote).run (.live 0) p (quote :: bs) =
      if [quote, quote].isPrefixOf bs then some p
      else (tripleReader quote).run (.live 0) (p + 1) bs := by
  rw [run_tripleReader_live_quote hquote, if_neg (by decide)]
  split
  next hthree =>
    obtain ⟨r, rfl⟩ := List.isPrefixOf_iff_prefix.1 hthree
    exact (run_tripleReader_live_quote hquote 1 _ _).trans
      (run_tripleReader_live_quote hquote 2 _ _)
  next hfewer =>
    exact run_tripleReader_one hquote (mt List.isPrefixOf_iff_prefix.2 hfewer) (p + 1)

end

theorem tripleQuoteEnd?_eq_run (quote : UInt8) (bs : List UInt8) (start : Nat) :
    tripleQuoteEnd? quote bs start = (tripleReader quote).run (.live 0) start (bs.drop start) := by
  refine leap_eq_run (A := tripleReader quote) (tripleReader_idle quote) ?_ start
  intro p b r hdrop hb
  obtain ⟨hhere, -⟩ := getElem?_of_drop hdrop
  rw [hhere, hdrop]
  by_cases hbackslash : b = backslashByte
  · subst hbackslash
    cases r <;> simp [Reader.run, tripleReader]
  · obtain rfl : b = quote := by simpa [hbackslash] using hb
    rw [run_tripleReader_quote hbackslash]
    simp only [Option.some.injEq, hbackslash, if_false, List.isPrefixOf, beq_self_eq_true,
      Bool.true_and]
    split <;> rfl

end EmbeddedSql.Scan
