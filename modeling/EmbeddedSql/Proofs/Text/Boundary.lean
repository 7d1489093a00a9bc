import EmbeddedSql.Text.Basic

namespace EmbeddedSql.Text

theorem bytes_eq_utf8ByteSize (t : Text) : t.bytes = (String.ofList t).utf8ByteSize := by
  induction t with
  | nil => rfl
  | cons c t ih =>
      have hcons : String.ofList (c :: t) = String.singleton c ++ String.ofList t := by
        rw [String.singleton_eq_ofList, ← String.ofList_append]
        rfl
      rw [hcons, String.utf8ByteSize_append, String.utf8ByteSize_singleton, bytes_cons, ih]

theorem add_bytes_take_cons (i : Nat) (c : Char) (r : Text) (n : Nat) :
    i + bytes ((c :: r).take (1 + n)) = i + c.utf8Size + bytes (r.take n) := by
  rw [Nat.add_comm 1, List.take_succ_cons, bytes_cons, Nat.add_assoc]

theorem map_add_bytes_take (u : Text) (k p : Nat) (answer : Option Nat) :
    (answer.map (· + k)).map (fun n => p + bytes (u.take n)) =
      answer.map fun n => p + bytes (u.take k) + bytes ((u.drop k).take n) := by
  rw [Option.map_map]
  congr 1
  funext n
  rw [Function.comp_apply, Nat.add_comm n, List.take_add, bytes_append, Nat.add_assoc]

theorem bytes_reverse (t : Text) : bytes t.reverse = t.bytes := by
  induction t with
  | nil => rfl
  | cons c t ih => simp [ih, Nat.add_comm]

def IsBoundary (t : Text) (n : Nat) : Prop :=
  (⟨n⟩ : String.Pos.Raw).IsValid (String.ofList t)

theorem isBoundary_append (s t : Text) : IsBoundary (s ++ t) s.bytes := by
  have hend : (⟨s.bytes⟩ : String.Pos.Raw) = (String.ofList s).rawEndPos := by
    rw [bytes_eq_utf8ByteSize]
    rfl
  rw [IsBoundary, String.ofList_append, hend]
  exact String.Pos.Raw.isValid_rawEndPos.append_right _

theorem isBoundary_iff {t : Text} {n : Nat} :
    IsBoundary t n ↔ ∃ s u : Text, t = s ++ u ∧ s.bytes = n := by
  constructor
  · intro h
    obtain ⟨a, b, happend, hpos⟩ := String.Pos.Raw.isValid_iff_exists_append.1 h
    refine ⟨a.toList, b.toList, ?_, ?_⟩
    · rw [← String.toList_append, ← happend, String.toList_ofList]
    · rw [bytes_eq_utf8ByteSize, String.ofList_toList]
      exact (congrArg String.Pos.Raw.byteIdx hpos).symm
  · rintro ⟨s, u, rfl, rfl⟩
    exact isBoundary_append s u

theorem append_eq_of_bytes_le {s t s' t' : Text} (h : s ++ t = s' ++ t')
    (hle : s.bytes ≤ s'.bytes) : ∃ u, s' = s ++ u ∧ t = u ++ t' := by
  rcases List.append_eq_append_iff.1 h with hfirst | ⟨u, rfl, rfl⟩
  · exact hfirst
  · cases u with
    | nil => exact ⟨[], by simp⟩
    | cons c u =>
        have hpos := c.utf8Size_pos
        rw [bytes_append, bytes_cons] at hle
        omega

theorem append_inj_of_bytes {s t s' t' : Text} (h : s ++ t = s' ++ t')
    (hbytes : s.bytes = s'.bytes) : s = s' ∧ t = t' := by
  have hcut := splitAtByte?_append s t
  rw [h, hbytes, splitAtByte?_append] at hcut
  exact (Prod.mk.inj (Option.some.inj hcut)).imp Eq.symm Eq.symm

def slice? (t : Text) (start stop : Nat) : Option Text :=
  (t.splitAtByte? stop).bind fun (front, _) => (front.splitAtByte? start).map Prod.snd

theorem slice?_eq_some {t s : Text} {start stop : Nat} :
    t.slice? start stop = some s ↔
      ∃ before after, t = before ++ s ++ after ∧ before.bytes = start ∧ start + s.bytes = stop := by
  constructor
  · intro h
    obtain ⟨⟨front, after⟩, hstop, hstart⟩ := Option.bind_eq_some_iff.1 h
    obtain ⟨⟨before, s'⟩, hsplit, rfl⟩ := Option.map_eq_some_iff.1 hstart
    obtain ⟨rfl, rfl⟩ := splitAtByte?_eq_some hstop
    obtain ⟨rfl, rfl⟩ := splitAtByte?_eq_some hsplit
    exact ⟨before, after, rfl, rfl, (bytes_append before s').symm⟩
  · rintro ⟨before, after, rfl, rfl, rfl⟩
    rw [slice?, ← bytes_append, splitAtByte?_append]
    show Option.map Prod.snd (splitAtByte? before.bytes (before ++ s)) = some s
    rw [splitAtByte?_append]
    rfl

theorem slice?_isSome_iff {t : Text} {start stop : Nat} :
    (t.slice? start stop).isSome = true ↔
      start ≤ stop ∧ IsBoundary t start ∧ IsBoundary t stop := by
  constructor
  · intro h
    obtain ⟨s, hs⟩ := Option.isSome_iff_exists.1 h
    obtain ⟨before, after, rfl, rfl, rfl⟩ := slice?_eq_some.1 hs
    refine ⟨Nat.le_add_right _ _, ?_, ?_⟩
    · rw [List.append_assoc]
      exact isBoundary_append before (s ++ after)
    · rw [← bytes_append]
      exact isBoundary_append (before ++ s) after
  · rintro ⟨hle, hstart, hstop⟩
    obtain ⟨before, rest, rfl, rfl⟩ := isBoundary_iff.1 hstart
    obtain ⟨front, after, hfront, rfl⟩ := isBoundary_iff.1 hstop
    obtain ⟨s, rfl, rfl⟩ := append_eq_of_bytes_le hfront hle
    have hslice := slice?_eq_some.2 ⟨before, after, hfront, rfl, (bytes_append before s).symm⟩
    exact Option.isSome_of_eq_some hslice

instance (t : Text) (n : Nat) : Decidable (IsBoundary t n) :=
  inferInstanceAs (Decidable (String.Pos.Raw.IsValid (String.ofList t) ⟨n⟩))

def RestAt (t : Text) (i : Nat) (u : Text) : Prop := ∃ s : Text, s ++ u = t ∧ s.bytes = i

namespace RestAt

variable {t s u r : Text} {i n : Nat} {c : Char}

theorem start (t : Text) : RestAt t 0 t := ⟨[], rfl, rfl⟩

theorem behind (s u : Text) : RestAt (s ++ u) s.bytes u := ⟨s, rfl, rfl⟩

theorem append (h : RestAt t i (s ++ u)) : RestAt t (i + s.bytes) u := by
  obtain ⟨front, rfl, rfl⟩ := h
  exact ⟨front ++ s, List.append_assoc front s u, bytes_append front s⟩

theorem cons (h : RestAt t i (c :: r)) : RestAt t (i + c.utf8Size) r :=
  append (s := [c]) h

theorem next (h : RestAt t i (c :: r)) (hc : c.utf8Size = 1) : RestAt t (i + 1) r := hc ▸ h.cons

theorem trans {j : Nat} (h : RestAt t i u) (h' : RestAt u j r) : RestAt t (i + j) r := by
  obtain ⟨front, rfl, rfl⟩ := h'
  exact h.append

theorem drop (h : RestAt t i u) (n : Nat) : RestAt t (i + bytes (u.take n)) (u.drop n) :=
  append (by rwa [List.take_append_drop])

theorem add_bytes (h : RestAt t i u) : i + u.bytes = t.bytes := by
  obtain ⟨s, rfl, rfl⟩ := h
  exact (bytes_append s u).symm

theorem isBoundary (h : RestAt t i u) : IsBoundary t i := by
  obtain ⟨s, rfl, rfl⟩ := h
  exact isBoundary_append s u

theorem slice? (h : RestAt t i (s ++ u)) : t.slice? i (i + s.bytes) = some s := by
  obtain ⟨front, rfl, rfl⟩ := h
  exact slice?_eq_some.2 ⟨front, u, (List.append_assoc front s u).symm, rfl, rfl⟩

theorem slice?_front (s u : Text) : (s ++ u).slice? 0 s.bytes = some s := by
  have hslice := (start (s ++ u)).slice?
  rwa [Nat.zero_add] at hslice

theorem append_right (h : RestAt t i u) (r : Text) : RestAt (t ++ r) i (u ++ r) := by
  obtain ⟨front, rfl, rfl⟩ := h
  exact ⟨front, (List.append_assoc front u r).symm, rfl⟩

theorem slice?_bytes (h : RestAt t i u) : t.slice? i t.bytes = some u := by
  rw [← List.append_nil u] at h
  rw [← h.append.add_bytes, bytes_nil, Nat.add_zero]
  exact h.slice?

theorem unique {j : Nat} (h : RestAt t i u) (h' : RestAt t j u) : i = j :=
  Nat.add_right_cancel (h.add_bytes.trans h'.add_bytes.symm)

theorem eq_of_drop {n : Nat} (h : RestAt (c :: r) i (r.drop n)) : i = bytes (c :: r.take n) := by
  refine h.unique ⟨c :: r.take n, ?_, rfl⟩
  rw [List.cons_append, List.take_append_drop]

theorem eq_bytes (h : RestAt (c :: r) i s) (hle : s.length ≤ r.length) :
    i = bytes (c :: r.take (r.length - s.length)) := by
  obtain ⟨front, hfront, rfl⟩ := h
  cases front with
  | nil =>
      have hlength := congrArg List.length hfront
      rw [List.nil_append, List.length_cons] at hlength
      omega
  | cons d front =>
      obtain ⟨rfl, hrest⟩ := List.cons.inj hfront
      rw [← show front ++ s = r from hrest, List.length_append, Nat.add_sub_cancel, List.take_left]

end RestAt

end EmbeddedSql.Text
