import EmbeddedSql.Proofs.Text.Boundary

namespace EmbeddedSql.Text

def utf8 (t : Text) : List UInt8 := t.flatMap String.utf8EncodeChar

@[simp] theorem utf8_nil : utf8 [] = [] := rfl

@[simp] theorem utf8_cons (c : Char) (t : Text) :
    utf8 (c :: t) = String.utf8EncodeChar c ++ utf8 t := rfl

@[simp] theorem utf8_append (s t : Text) : utf8 (s ++ t) = utf8 s ++ utf8 t :=
  List.flatMap_append

@[simp] theorem length_utf8 (t : Text) : (utf8 t).length = t.bytes := by
  induction t with
  | nil => rfl
  | cons c t ih => rw [utf8_cons, List.length_append, String.length_utf8EncodeChar, ih, bytes_cons]

theorem le_of_mem_utf8EncodeChar {c : Char} {b : UInt8} (hc : c.utf8Size ≠ 1)
    (hb : b ∈ String.utf8EncodeChar c) : 0x80 ≤ b.toNat := by
  have hlarge : ¬c.val.toNat ≤ 0x7f := fun h => hc (Char.utf8Size_eq_one_iff.2 h)
  unfold String.utf8EncodeChar at hb
  simp only [hlarge, if_false] at hb
  split at hb
  next =>
    simp only [List.mem_cons, List.not_mem_nil, or_false] at hb
    rcases hb with rfl | rfl <;> rw [UInt8.toNat_ofNat'] <;> omega
  next =>
    split at hb
    next =>
      simp only [List.mem_cons, List.not_mem_nil, or_false] at hb
      rcases hb with rfl | rfl | rfl <;> rw [UInt8.toNat_ofNat'] <;> omega
    next =>
      simp only [List.mem_cons, List.not_mem_nil, or_false] at hb
      rcases hb with rfl | rfl | rfl | rfl <;> rw [UInt8.toNat_ofNat'] <;> omega

section

variable {w : Char} (hw : w.utf8Size = 1)

include hw

theorem utf8Size_of_beq {c : Char} (hc : (c == w) = true) : c.utf8Size = 1 := beq_iff_eq.1 hc ▸ hw

theorem utf8EncodeChar_eq : String.utf8EncodeChar w = [w.toUInt8] :=
  String.utf8EncodeChar_eq_singleton hw

theorem eq_of_mem_utf8EncodeChar {b : UInt8} (hb : b ∈ String.utf8EncodeChar w) :
    b = w.toUInt8 := by
  rwa [utf8EncodeChar_eq hw, List.mem_singleton] at hb

theorem toNat_toUInt8 : w.toUInt8.toNat = w.toNat := by
  have hsmall : w.toNat ≤ 0x7f := Char.utf8Size_eq_one_iff.1 hw
  rw [Char.toUInt8, UInt32.toNat_toUInt8]
  exact Nat.mod_eq_of_lt (Nat.lt_of_le_of_lt hsmall (by decide))

theorem toUInt8_inj {c : Char} (hc : c.utf8Size = 1) (h : w.toUInt8 = c.toUInt8) : w = c := by
  have hnat := congrArg UInt8.toNat h
  rw [toNat_toUInt8 hw, toNat_toUInt8 hc] at hnat
  exact Char.toNat_inj.1 hnat

theorem toUInt8_mem_utf8EncodeChar {c : Char} : w.toUInt8 ∈ String.utf8EncodeChar c ↔ c = w := by
  constructor
  · intro hmem
    have hsmall : w.toNat ≤ 0x7f := Char.utf8Size_eq_one_iff.1 hw
    by_cases hc : c.utf8Size = 1
    · rw [utf8EncodeChar_eq hc, List.mem_singleton] at hmem
      exact (toUInt8_inj hw hc hmem).symm
    · have hlarge := le_of_mem_utf8EncodeChar hc hmem
      rw [toNat_toUInt8 hw] at hlarge
      omega
  · rintro rfl
    rw [utf8EncodeChar_eq hw]
    exact List.mem_singleton_self _

end

theorem exists_utf8EncodeChar (c : Char) :
    ∃ b bs, String.utf8EncodeChar c = b :: bs ∧
      ∀ w : Char, w.utf8Size = 1 → (b = w.toUInt8 ↔ c = w) ∧ w.toUInt8 ∉ bs := by
  have hne : String.utf8EncodeChar c ≠ [] := by
    rw [← List.length_pos_iff, String.length_utf8EncodeChar]
    exact c.utf8Size_pos
  obtain ⟨b, bs, hbytes⟩ := List.exists_cons_of_ne_nil hne
  refine ⟨b, bs, hbytes, fun w hw => ?_⟩
  by_cases hc : c = w
  · subst hc
    obtain ⟨rfl, rfl⟩ := List.cons.inj (hbytes.symm.trans (utf8EncodeChar_eq hw))
    exact ⟨iff_of_true rfl rfl, List.not_mem_nil⟩
  · have hnone := mt (toUInt8_mem_utf8EncodeChar hw).1 hc
    rw [hbytes, List.mem_cons, not_or] at hnone
    exact ⟨iff_of_false (fun h => hnone.1 h.symm) hc, hnone.2⟩

theorem forall_utf8Size {s : Text} (hs : (s.all fun c => c.utf8Size == 1) = true) :
    ∀ c ∈ s, c.utf8Size = 1 := by
  simpa using hs

theorem utf8_eq_map {s : Text} (hs : ∀ c ∈ s, c.utf8Size = 1) : utf8 s = s.map Char.toUInt8 := by
  induction s with
  | nil => rfl
  | cons c s ih =>
      obtain ⟨hc, hs⟩ := List.forall_mem_cons.1 hs
      rw [utf8_cons, utf8EncodeChar_eq hc, ih hs]
      rfl

theorem exists_firstByte (c : Char) (r : Text) :
    ∃ b ∈ String.utf8EncodeChar c, (utf8 (c :: r)).head? = some b := by
  obtain ⟨b, bs, hbytes, -⟩ := exists_utf8EncodeChar c
  exact ⟨b, by simp [hbytes], by simp [hbytes]⟩

theorem isEmpty_utf8 (s : Text) : (utf8 s).isEmpty = s.isEmpty := by
  cases s with
  | nil => rfl
  | cons c s =>
      obtain ⟨b, bs, hbytes, -⟩ := exists_utf8EncodeChar c
      rw [utf8_cons, hbytes]
      rfl

theorem isPrefixOf_utf8 {s : Text} (hs : ∀ w ∈ s, w.utf8Size = 1) (t : Text) :
    (s.map Char.toUInt8).isPrefixOf (utf8 t) = startsWith t s := by
  induction s generalizing t with
  | nil => rfl
  | cons w s ih =>
      obtain ⟨hw, hrest⟩ := List.forall_mem_cons.1 hs
      cases t with
      | nil => rfl
      | cons c t =>
          by_cases hc : c = w
          · subst hc
            rw [utf8_cons, utf8EncodeChar_eq hw]
            simpa [startsWith, List.isPrefixOf] using ih hrest t
          · obtain ⟨b, bs, hbytes, hfirst⟩ := exists_utf8EncodeChar c
            have hb : (w.toUInt8 == b) = false := by
              rw [beq_eq_false_iff_ne, ne_comm, Ne, (hfirst w hw).1]
              exact hc
            have hcw : (w == c) = false := by
              rw [beq_eq_false_iff_ne, ne_comm]
              exact hc
            rw [utf8_cons, hbytes, startsWith, List.map_cons, List.cons_append, List.isPrefixOf,
              List.isPrefixOf, hb, hcw, Bool.false_and, Bool.false_and]

def Agrees (Q : UInt8 → Bool) (q : Char → Bool) : Prop :=
  ∀ c, ∀ b ∈ String.utf8EncodeChar c, Q b = q c

theorem toNat_ofUInt8 (b : UInt8) : (Char.ofUInt8 b).toNat = b.toNat := UInt8.toNat_toUInt32 b

theorem ofUInt8_toUInt8 {w : Char} (hw : w.utf8Size = 1) : Char.ofUInt8 w.toUInt8 = w := by
  rw [← Char.toNat_inj, toNat_ofUInt8, toNat_toUInt8 hw]

theorem ofUInt8_eq_iff {w : Char} (hw : w.utf8Size = 1) {b : UInt8} :
    Char.ofUInt8 b = w ↔ b = w.toUInt8 := by
  rw [← Char.toNat_inj, toNat_ofUInt8, ← toNat_toUInt8 hw, UInt8.toNat_inj]

theorem agrees_ofUInt8 {q : Char → Bool} {a : Bool} (hq : ∀ c : Char, c.utf8Size ≠ 1 → q c = a) :
    Agrees (fun b => q (Char.ofUInt8 b)) q := by
  intro c b hb
  dsimp only
  by_cases hc : c.utf8Size = 1
  · rw [eq_of_mem_utf8EncodeChar hc hb, ofUInt8_toUInt8 hc]
  · have hlarge := le_of_mem_utf8EncodeChar hc hb
    have hne : (Char.ofUInt8 b).utf8Size ≠ 1 := by
      intro h
      have hsmall : (Char.ofUInt8 b).toNat ≤ 0x7f := Char.utf8Size_eq_one_iff.1 h
      rw [toNat_ofUInt8] at hsmall
      omega
    rw [hq _ hne, hq _ hc]

section

variable {Q : UInt8 → Bool} {q : Char → Bool} (h : Agrees Q q) (t : Text)

include h

theorem takeWhile_utf8 : (utf8 t).takeWhile Q = utf8 (t.takeWhile q) := by
  induction t with
  | nil => rfl
  | cons c t ih =>
      rw [utf8_cons]
      cases hc : q c with
      | true =>
          have hall : ∀ b ∈ String.utf8EncodeChar c, Q b = true := fun b hb => (h c b hb).trans hc
          rw [List.takeWhile_append_of_pos hall, ih, List.takeWhile_cons_of_pos hc, utf8_cons]
      | false =>
          obtain ⟨b, bs, hbytes, -⟩ := exists_utf8EncodeChar c
          have hb : Q b = false := (h c b (by simp [hbytes])).trans hc
          rw [hbytes, List.cons_append, List.takeWhile_cons_of_neg (by simp [hb]),
            List.takeWhile_cons_of_neg (by simp [hc])]
          rfl

theorem all_utf8 : (utf8 t).all Q = t.all q := by
  induction t with
  | nil => rfl
  | cons c t ih =>
      obtain ⟨b, bs, hbytes, -⟩ := exists_utf8EncodeChar c
      have hall : (String.utf8EncodeChar c).all Q = q c := by
        cases hc : q c with
        | true => exact List.all_eq_true.2 fun b hb => (h c b hb).trans hc
        | false =>
            have hb : Q b = false := (h c b (by simp [hbytes])).trans hc
            rw [hbytes, List.all_cons, hb, Bool.false_and]
      rw [utf8_cons, List.all_append, ih, hall, List.all_cons]

theorem any_head?_utf8 : (utf8 t).head?.any Q = t.head?.any q := by
  cases t with
  | nil => rfl
  | cons c t =>
      obtain ⟨b, bs, hbytes, -⟩ := exists_utf8EncodeChar c
      rw [utf8_cons, hbytes]
      exact h c b (by simp [hbytes])

end

theorem head?_utf8_eq_some {w : Char} (hw : w.utf8Size = 1) (t : Text) :
    (utf8 t).head? = some w.toUInt8 ↔ t.head? = some w := by
  cases t with
  | nil => simp
  | cons c t =>
      obtain ⟨b, bs, hbytes, hfirst⟩ := exists_utf8EncodeChar c
      rw [utf8_cons, hbytes]
      simpa using (hfirst w hw).1

namespace RestAt

variable {t u r : Text} {i : Nat} {c : Char}

theorem drop_utf8 (h : RestAt t i u) : (utf8 t).drop i = utf8 u := by
  obtain ⟨s, rfl, rfl⟩ := h
  rw [utf8_append, ← length_utf8, List.drop_left]

theorem getElem?_utf8 (h : RestAt t i u) : (utf8 t)[i]? = (utf8 u).head? := by
  rw [← List.head?_drop, h.drop_utf8]

theorem eq_length (h : RestAt t i []) : i = (utf8 t).length := by
  rw [length_utf8, ← h.add_bytes, bytes_nil, Nat.add_zero]

theorem lt_length (h : RestAt t i (c :: r)) : i < (utf8 t).length := by
  have hpos := c.utf8Size_pos
  rw [length_utf8, ← h.add_bytes, bytes_cons]
  omega

theorem byteAt_iff {w : Char} (hw : w.utf8Size = 1) (h : RestAt t i u) :
    (utf8 t)[i]? = some w.toUInt8 ↔ u.head? = some w := by
  rw [h.getElem?_utf8, head?_utf8_eq_some hw]

theorem any_getElem?_utf8 {Q : UInt8 → Bool} {q : Char → Bool} (hQ : Agrees Q q)
    (h : RestAt t i u) : (utf8 t)[i]?.any Q = u.head?.any q := by
  rw [h.getElem?_utf8, any_head?_utf8 hQ]

section

variable {α : Type} {f : Nat → α} (ws : List Char)
  (hf : ∀ i b r, (utf8 t).drop i = b :: r → b ∉ ws.map Char.toUInt8 → f i = f (i + 1))

include hf

theorem skip_bytes {bs rest : List UInt8} (hdrop : (utf8 t).drop i = bs ++ rest)
    (hbs : ∀ b ∈ bs, b ∉ ws.map Char.toUInt8) : f i = f (i + bs.length) := by
  induction bs generalizing i with
  | nil => rfl
  | cons b bs ih =>
      obtain ⟨hb, hbs⟩ := List.forall_mem_cons.1 hbs
      have hnext : (utf8 t).drop (i + 1) = bs ++ rest := by
        rw [← List.drop_drop, hdrop, List.cons_append, List.drop_one, List.tail_cons]
      rw [hf i b _ hdrop hb, ih hnext hbs, List.length_cons, Nat.add_right_comm, Nat.add_assoc]

variable (hws : ∀ w ∈ ws, w.utf8Size = 1)

include hws

theorem skip_behind_first (h : RestAt t i (c :: r)) : f (i + 1) = f (i + c.utf8Size) := by
  obtain ⟨b, bs, hbytes, hfirst⟩ := exists_utf8EncodeChar c
  have hsize : c.utf8Size = bs.length + 1 := by
    rw [← String.length_utf8EncodeChar, hbytes, List.length_cons]
  have hdrop : (utf8 t).drop (i + 1) = bs ++ utf8 r := by
    rw [← List.drop_drop, h.drop_utf8, utf8_cons, hbytes, List.cons_append, List.drop_one,
      List.tail_cons]
  have hothers : ∀ b ∈ bs, b ∉ ws.map Char.toUInt8 := by
    intro b hb hmem
    obtain ⟨w, hw, rfl⟩ := List.mem_map.1 hmem
    exact (hfirst w (hws w hw)).2 hb
  rw [skip_bytes ws hf hdrop hothers, hsize, Nat.add_assoc, Nat.add_comm 1]

theorem skip (h : RestAt t i (c :: r)) (hc : c ∉ ws) : f i = f (i + c.utf8Size) := by
  obtain ⟨b, bs, hbytes, hfirst⟩ := exists_utf8EncodeChar c
  have hdrop : (utf8 t).drop i = b :: (bs ++ utf8 r) := by
    rw [h.drop_utf8, utf8_cons, hbytes, List.cons_append]
  have hb : b ∉ ws.map Char.toUInt8 := by
    intro hmem
    obtain ⟨w, hw, hbw⟩ := List.mem_map.1 hmem
    exact hc ((hfirst w (hws w hw)).1.1 hbw.symm ▸ hw)
  rw [hf i b _ hdrop hb, h.skip_behind_first ws hf hws]

end

end RestAt

end EmbeddedSql.Text
