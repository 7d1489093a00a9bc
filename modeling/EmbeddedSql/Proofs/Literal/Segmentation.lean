import EmbeddedSql.Verdict

namespace EmbeddedSql

open Text

namespace Words

structure Segment where
  word : Text
  gap : Text
  word_ne : word ≠ []
  letters : ∀ c ∈ word, isLetter c = true
  apart : ∀ c ∈ gap, isLetter c = false

def Segment.text (s : Segment) : Text := s.word ++ s.gap

def numberAt? : List Segment → Nat → Option Nat
  | [], _ => none
  | s :: ss, i =>
      if i < s.word.length then some 0
      else if i < s.text.length then none
      else (numberAt? ss (i - s.text.length)).map (· + 1)

structure Segmentation where
  lead : Text
  segments : List Segment
  apart : ∀ c ∈ lead, isLetter c = false

namespace Segmentation

def text (s : Segmentation) : Text := s.lead ++ s.segments.flatMap Segment.text

def words (s : Segmentation) : List Text := s.segments.map Segment.word

def wordAt? (s : Segmentation) (i : Nat) : Option Nat :=
  if i < s.lead.length then none else numberAt? s.segments (i - s.lead.length)

end Segmentation

/-- Between `p` and `c` the case changes: a capital stands after a small letter, or after another
capital and before a small letter. -/
def CaseChanges (p c : Char) (rest : Text) : Prop :=
  (isLowercase p = true ∧ isUppercase c = true) ∨
    (isUppercase p = true ∧ isUppercase c = true ∧ ∃ n, rest.head? = some n ∧ isLowercase n = true)

theorem beginsWord_some (p c : Char) (rest : Text) :
    beginsWord (some p) c rest.head? = true ↔ CaseChanges p c rest := by
  simp [beginsWord, CaseChanges, and_assoc, Option.any_eq_true]

def Joined (rest : Text) : Text → Prop
  | p :: c :: r => ¬ CaseChanges p c (r ++ rest) ∧ Joined rest (c :: r)
  | _ => True

theorem Joined.not_caseChanges {rest u v : Text} {p c : Char}
    (h : Joined rest (u ++ p :: c :: v)) : ¬ CaseChanges p c (v ++ rest) := by
  induction u with
  | nil => exact h.1
  | cons d u ih =>
      cases u with
      | nil => exact ih h.2
      | cons e u => exact ih h.2

def Parted (word rest : Text) : Prop :=
  ∀ p c r, word.getLast? = some p → rest = c :: r → CaseChanges p c r

inductive CutByCase : List Segment → Prop
  | nil : CutByCase []
  | cons {s ss} : Joined (s.gap ++ ss.flatMap Segment.text) s.word →
      (s.gap = [] → Parted s.word (ss.flatMap Segment.text)) → CutByCase ss → CutByCase (s :: ss)

theorem CutByCase.of_append {before ss : List Segment} (h : CutByCase (before ++ ss)) :
    CutByCase ss := by
  induction before with
  | nil => exact h
  | cons s before ih =>
      cases h with
      | cons _ _ hrest => exact ih hrest

structure Reads (previous : Option Char) (r word gap : Text) (ss : List Segment) : Prop where
  text : r = word ++ (gap ++ ss.flatMap Segment.text)
  letters : ∀ c ∈ word, isLetter c = true
  apart : ∀ c ∈ gap, isLetter c = false
  joined : Joined (gap ++ ss.flatMap Segment.text) (previous.toList ++ word)
  parted : gap = [] → Parted (previous.toList ++ word) (ss.flatMap Segment.text)
  cut : CutByCase ss

namespace Reads

variable {previous : Option Char} {c : Char} {r word gap : Text} {ss : List Segment}

theorem nil (previous : Option Char) : Reads previous [] [] [] [] where
  text := rfl
  letters := by simp
  apart := by simp
  joined := by cases previous <;> trivial
  parted := by simp [Parted]
  cut := .nil

theorem extend (h : Reads (some c) r word gap ss) (hc : isLetter c = true)
    (hbegin : beginsWord previous c r.head? = false) :
    Reads previous (c :: r) (c :: word) gap ss where
  text := congrArg (c :: ·) h.text
  letters := List.forall_mem_cons.2 ⟨hc, h.letters⟩
  apart := h.apart
  joined := by
    cases previous with
    | none => exact h.joined
    | some p =>
        refine ⟨?_, h.joined⟩
        rw [← h.text, ← beginsWord_some, hbegin]
        exact Bool.false_ne_true
  parted := by
    intro hgap p d rest hlast
    refine h.parted hgap p d rest ?_
    simpa [List.getLast?_append, List.getLast?_cons] using hlast
  cut := h.cut

theorem begin (h : Reads (some c) r word gap ss) (hc : isLetter c = true)
    (hbegin : beginsWord previous c r.head? = true) :
    Reads previous (c :: r) [] [] (⟨c :: word, gap, List.cons_ne_nil c word,
      List.forall_mem_cons.2 ⟨hc, h.letters⟩, h.apart⟩ :: ss) where
  text := by
    rw [List.flatMap_cons, Segment.text, List.append_assoc]
    exact congrArg (c :: ·) h.text
  letters := by simp
  apart := by simp
  joined := by cases previous <;> trivial
  parted := by
    intro _ p d rest hlast hrest
    rw [List.append_nil] at hlast
    obtain rfl : previous = some p := by cases previous <;> simp_all
    rw [List.flatMap_cons, Segment.text, List.append_assoc, List.cons_append, ← h.text] at hrest
    obtain ⟨rfl, rfl⟩ := List.cons.inj hrest
    exact (beginsWord_some p c r).1 hbegin
  cut := .cons h.joined h.parted h.cut

theorem widen (h : Reads none r [] gap ss) (hc : isLetter c = false) (previous : Option Char) :
    Reads previous (c :: r) [] (c :: gap) ss where
  text := congrArg (c :: ·) h.text
  letters := by simp
  apart := List.forall_mem_cons.2 ⟨hc, h.apart⟩
  joined := by cases previous <;> trivial
  parted := by simp
  cut := h.cut

theorem separate (h : Reads none r word gap ss) (hc : isLetter c = false) (hword : word ≠ [])
    (previous : Option Char) :
    Reads previous (c :: r) [] [c] (⟨word, gap, hword, h.letters, h.apart⟩ :: ss) where
  text := by
    rw [List.flatMap_cons, Segment.text, List.append_assoc]
    exact congrArg (c :: ·) h.text
  letters := by simp
  apart := by simpa using hc
  joined := by cases previous <;> trivial
  parted := by simp
  cut := .cons h.joined h.parted h.cut

end Reads

theorem exists_reads (previous : Option Char) (r : Text) : ∃ word gap ss,
    wordsFrom previous r = (word, ss.map Segment.word) ∧ Reads previous r word gap ss := by
  induction r generalizing previous with
  | nil => exact ⟨[], [], [], rfl, .nil previous⟩
  | cons c r ih =>
      cases hc : isLetter c with
      | true =>
          obtain ⟨word, gap, ss, hfrom, h⟩ := ih (some c)
          cases hbegin : beginsWord previous c r.head? with
          | true => exact ⟨[], [], _, by simp [wordsFrom, hc, hbegin, hfrom], h.begin hc hbegin⟩
          | false => exact ⟨_, gap, ss, by simp [wordsFrom, hc, hbegin, hfrom], h.extend hc hbegin⟩
      | false =>
          obtain ⟨word, gap, ss, hfrom, h⟩ := ih none
          cases word with
          | nil => exact ⟨[], _, ss, by simp [wordsFrom, hc, hfrom], h.widen hc previous⟩
          | cons d word =>
              exact ⟨[], [c], _, by simp [wordsFrom, hc, hfrom],
                h.separate hc (List.cons_ne_nil d word) previous⟩

theorem numberAt?_eq_some {ss : List Segment} {i n : Nat} :
    numberAt? ss i = some n ↔ ∃ before s after j, ss = before ++ s :: after ∧ before.length = n ∧
      j < s.word.length ∧ i = (before.flatMap Segment.text).length + j := by
  constructor
  · intro h
    induction ss generalizing i n with
    | nil => cases h
    | cons s ss ih =>
        rw [numberAt?] at h
        split at h
        next hword =>
          obtain rfl := Option.some.inj h
          exact ⟨[], s, ss, i, rfl, rfl, hword, by simp⟩
        next =>
          split at h
          next => cases h
          next hgap =>
            obtain ⟨m, hm, rfl⟩ := Option.map_eq_some_iff.1 h
            obtain ⟨before, t, after, j, rfl, rfl, hj, hi⟩ := ih hm
            refine ⟨s :: before, t, after, j, rfl, rfl, hj, ?_⟩
            rw [List.flatMap_cons, List.length_append]
            omega
  · rintro ⟨before, s, after, j, rfl, rfl, hj, rfl⟩
    induction before with
    | nil => simp [numberAt?, hj]
    | cons t before ih =>
        have hword : t.word.length ≤ t.text.length := by simp [Segment.text]
        rw [List.flatMap_cons, List.length_append, List.cons_append, numberAt?, if_neg (by omega),
          if_neg (by omega), Nat.add_assoc, Nat.add_sub_cancel_left, ih]
        rfl

theorem exists_numberAt? {ss : List Segment} {i : Nat} {c : Char}
    (hi : (ss.flatMap Segment.text)[i]? = some c) (hc : isLetter c = true) :
    ∃ n, numberAt? ss i = some n := by
  induction ss generalizing i with
  | nil => simp at hi
  | cons s ss ih =>
      rw [List.flatMap_cons] at hi
      rw [numberAt?]
      split
      next => exact ⟨0, rfl⟩
      next hword =>
        split
        next hgap =>
          -- a character of the gap is no letter
          rw [List.getElem?_append_left hgap, Segment.text,
            List.getElem?_append_right (Nat.le_of_not_lt hword)] at hi
          rw [s.apart c (List.mem_of_getElem? hi)] at hc
          cases hc
        next hgap =>
          rw [List.getElem?_append_right (Nat.le_of_not_lt hgap)] at hi
          obtain ⟨n, hn⟩ := ih hi
          exact ⟨n + 1, by rw [hn]; rfl⟩

theorem Segment.gap_eq_nil {t : Segment} {rest r : Text} {c : Char} (h : t.gap ++ rest = c :: r)
    (hc : isLetter c = true) : t.gap = [] := by
  cases hgap : t.gap with
  | nil => rfl
  | cons d gap =>
      rw [hgap] at h
      obtain ⟨rfl, -⟩ := List.cons.inj h
      have hd := t.apart d (by simp [hgap])
      rw [hc] at hd
      cases hd

namespace Segmentation

variable {s : Segmentation} {before after : List Segment} {t : Segment} {i j k n : Nat} {c : Char}

theorem wordAt?_eq_some : s.wordAt? i = some n ↔ ∃ before t after j,
    s.segments = before ++ t :: after ∧ before.length = n ∧ j < t.word.length ∧
      i = s.lead.length + ((before.flatMap Segment.text).length + j) := by
  rw [wordAt?]
  split
  next hlead =>
    constructor
    · intro h
      cases h
    · rintro ⟨before, t, after, j, -, -, -, rfl⟩
      omega
  next hlead =>
    rw [numberAt?_eq_some]
    constructor
    · rintro ⟨before, t, after, j, hs, hn, hj, hi⟩
      exact ⟨before, t, after, j, hs, hn, hj, by omega⟩
    · rintro ⟨before, t, after, j, hs, hn, hj, hi⟩
      exact ⟨before, t, after, j, hs, hn, hj, by omega⟩

theorem drop_text (hs : s.segments = before ++ t :: after) (hj : j ≤ t.word.length) :
    s.text.drop (s.lead.length + ((before.flatMap Segment.text).length + j)) =
      t.word.drop j ++ (t.gap ++ after.flatMap Segment.text) := by
  rw [text, List.drop_length_add_append, hs, List.flatMap_append, List.drop_length_add_append,
    List.flatMap_cons, Segment.text, List.append_assoc, List.drop_append_of_le_length hj]

theorem isSome_wordAt? (h : s.text[i]? = some c) :
    (s.wordAt? i).isSome = true ↔ isLetter c = true := by
  rw [Option.isSome_iff_exists]
  constructor
  · rintro ⟨n, hn⟩
    obtain ⟨before, t, after, j, hs, -, hj, rfl⟩ := wordAt?_eq_some.1 hn
    rw [← List.head?_drop, drop_text hs (Nat.le_of_lt hj), List.drop_eq_getElem_cons hj] at h
    obtain rfl : t.word[j] = c := Option.some.inj h
    exact t.letters _ (List.getElem_mem hj)
  · intro hc
    rw [wordAt?]
    split
    next hlead =>
      rw [text, List.getElem?_append_left hlead] at h
      rw [s.apart c (List.mem_of_getElem? h)] at hc
      cases hc
    next hlead =>
      rw [text, List.getElem?_append_right (Nat.le_of_not_lt hlead)] at h
      exact exists_numberAt? h hc

theorem exists_place {r : Text} (h : s.text.drop i = c :: r) (hc : isLetter c = true) :
    ∃ before t after u v, s.segments = before ++ t :: after ∧ t.word = u ++ c :: v ∧
      i = s.lead.length + ((before.flatMap Segment.text).length + u.length) ∧
      r = v ++ (t.gap ++ after.flatMap Segment.text) := by
  have hplace : s.text[i]? = some c := by
    rw [← List.head?_drop, h]
    rfl
  obtain ⟨n, hn⟩ := Option.isSome_iff_exists.1 ((isSome_wordAt? hplace).2 hc)
  obtain ⟨before, t, after, j, hs, -, hj, rfl⟩ := wordAt?_eq_some.1 hn
  rw [drop_text hs (Nat.le_of_lt hj), List.drop_eq_getElem_cons hj] at h
  obtain ⟨rfl, rfl⟩ := List.cons.inj h
  refine ⟨before, t, after, t.word.take j, t.word.drop (j + 1), hs, ?_, ?_, rfl⟩
  · rw [← List.drop_eq_getElem_cons hj, List.take_append_drop]
  · rw [List.length_take_of_le (Nat.le_of_lt hj)]

theorem wordAt?_ne_iff (hcut : CutByCase s.segments) {p : Char} {rest : Text}
    (h : s.text.drop i = p :: c :: rest) (hp : isLetter p = true) (hc : isLetter c = true) :
    s.wordAt? i ≠ s.wordAt? (i + 1) ↔ CaseChanges p c rest := by
  obtain ⟨before, t, after, u, v, hs, hword, hi, hrest⟩ := exists_place h hp
  have hlength := congrArg List.length hword
  rw [List.length_append, List.length_cons] at hlength
  have hfirst : s.wordAt? i = some before.length :=
    wordAt?_eq_some.2 ⟨before, t, after, u.length, hs, rfl, by omega, hi⟩
  rw [hs] at hcut
  cases hcut.of_append with
  | cons hjoined hparted _ =>
  cases v with
  | cons d v =>
      -- the word goes on
      obtain ⟨rfl, rfl⟩ := List.cons.inj hrest
      rw [List.length_cons] at hlength
      have hsecond : s.wordAt? (i + 1) = some before.length :=
        wordAt?_eq_some.2 ⟨before, t, after, u.length + 1, hs, rfl, by omega, by omega⟩
      rw [hword] at hjoined
      exact iff_of_false (fun hne => hne (hfirst.trans hsecond.symm)) hjoined.not_caseChanges
  | nil =>
      -- the second letter begins the next word
      have hgap := Segment.gap_eq_nil hrest.symm hc
      rw [hgap, List.nil_append, List.nil_append] at hrest
      have hlast : t.word.getLast? = some p := by simp [hword]
      refine iff_of_true ?_ (hparted hgap p c rest hlast hrest.symm)
      cases after with
      | nil => cases hrest
      | cons w after =>
          have hplace : i + 1 =
              s.lead.length + (((before ++ [t]).flatMap Segment.text).length + 0) := by
            rw [List.flatMap_append, List.flatMap_singleton, List.length_append, Segment.text,
              hgap, List.append_nil]
            rw [List.length_nil] at hlength
            omega
          have hsecond : s.wordAt? (i + 1) = some (before ++ [t]).length :=
            wordAt?_eq_some.2 ⟨before ++ [t], w, after, 0, by simp [hs], rfl,
              List.length_pos_iff.2 w.word_ne, hplace⟩
          rw [hfirst, hsecond, List.length_append, List.length_singleton]
          exact fun heq => absurd (Option.some.inj heq) (Nat.ne_of_lt (Nat.lt_succ_self _))

theorem wordAt?_ne_of_apart (hij : i < j) (hjk : j < k) (h : s.text[j]? = some c)
    (hc : isLetter c = false) (hi : s.wordAt? i = some n) : s.wordAt? k ≠ some n := by
  intro hk
  obtain ⟨before, t, after, a, hs, hn, ha, rfl⟩ := wordAt?_eq_some.1 hi
  obtain ⟨before', t', after', b, hs', hn', hb, rfl⟩ := wordAt?_eq_some.1 hk
  obtain ⟨rfl, hrest⟩ := List.append_inj (hs.symm.trans hs') (hn.trans hn'.symm)
  obtain ⟨rfl, rfl⟩ := List.cons.inj hrest
  have hbetween : s.wordAt? j = some n := wordAt?_eq_some.2 ⟨before, t, after,
    j - (s.lead.length + (before.flatMap Segment.text).length), hs, hn, by omega, by omega⟩
  have hletter := (isSome_wordAt? h).1 (by rw [hbetween]; rfl)
  rw [hc] at hletter
  cases hletter

end Segmentation

theorem exists_segmentation (name : Text) : ∃ s : Segmentation,
    s.text = name ∧ s.words = identifierWords name ∧ CutByCase s.segments := by
  obtain ⟨word, gap, ss, hfrom, h⟩ := exists_reads none name
  have htext := h.text
  rw [identifierWords, hfrom]
  cases word with
  | nil => exact ⟨⟨gap, ss, h.apart⟩, htext.symm, rfl, h.cut⟩
  | cons c word =>
      rw [← List.append_assoc] at htext
      exact ⟨⟨[], ⟨c :: word, gap, List.cons_ne_nil c word, h.letters, h.apart⟩ :: ss, by simp⟩,
        htext.symm, rfl, .cons h.joined h.parted h.cut⟩

theorem Segmentation.flatten_words (s : Segmentation) :
    s.words.flatten = s.text.filter isLetter := by
  have hlead : s.lead.filter isLetter = [] :=
    List.filter_eq_nil_iff.2 fun c hc => by simp [s.apart c hc]
  rw [words, text, List.filter_append, hlead, List.nil_append]
  induction s.segments with
  | nil => rfl
  | cons t ss ih =>
      have hgap : t.gap.filter isLetter = [] :=
        List.filter_eq_nil_iff.2 fun c hc => by simp [t.apart c hc]
      rw [List.map_cons, List.flatten_cons, ih, List.flatMap_cons, List.filter_append, Segment.text,
        List.filter_append, hgap, List.filter_eq_self.2 t.letters, List.append_nil]

end Words

open Words

theorem identifierWords_segments (name : Text) :
    ∃ s : Segmentation, s.text = name ∧ s.words = identifierWords name ∧
      (identifierWords name).flatten = name.filter isLetter ∧
      (∀ i c, name[i]? = some c → ((s.wordAt? i).isSome = true ↔ isLetter c = true)) ∧
      (∀ i p c rest, name.drop i = p :: c :: rest → isLetter p = true → isLetter c = true →
        (s.wordAt? i ≠ s.wordAt? (i + 1) ↔ CaseChanges p c rest)) ∧
      ∀ i j k c n, i < j → j < k → name[j]? = some c → isLetter c = false →
        s.wordAt? i = some n → s.wordAt? k ≠ some n := by
  obtain ⟨s, rfl, hwords, hcut⟩ := exists_segmentation name
  refine ⟨s, rfl, hwords, ?_, ?_, ?_, ?_⟩
  · rw [← hwords, s.flatten_words]
  · exact fun i c h => Segmentation.isSome_wordAt? h
  · exact fun i p c rest h hp hc => Segmentation.wordAt?_ne_iff hcut h hp hc
  · exact fun i j k c n hij hjk h hc hi => Segmentation.wordAt?_ne_of_apart hij hjk h hc hi

example : identifierWords "my2SQLQueryID".toList =
    ["my", "SQL", "Query", "ID"].map String.toList := by decide

end EmbeddedSql
