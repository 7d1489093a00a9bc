import Mathlib.Data.List.Sigma
import EmbeddedSql.Proofs.Source.Replacement
import EmbeddedSql.Proofs.Text.Boundary

namespace EmbeddedSql

open Text

def Revision.Stands (source : Text) (r : Revision) : Prop :=
  source.slice? r.occurrence.start r.occurrence.stop = some r.occurrence.text

instance (source : Text) (r : Revision) : Decidable (r.Stands source) :=
  inferInstanceAs (Decidable (_ = _))

def Precedes (x y : Revision × Nat) : Prop :=
  x.1.occurrence.start < y.1.occurrence.start ∨
    x.1.occurrence.start = y.1.occurrence.start ∧ x.2 < y.2

inductive Patched : Nat → Text → List Revision → Text → Prop
  | nil {n : Nat} {t : Text} : Patched n t [] t
  | cons {n : Nat} {r : Revision} {rs : List Revision} {rest out : Text} (gap : Text) :
      r.occurrence.start = n + gap.bytes →
      r.occurrence.stop = r.occurrence.start + r.occurrence.text.bytes →
      Patched r.occurrence.stop rest rs out →
      Patched n (gap ++ r.occurrence.text ++ rest) (r :: rs) (gap ++ r.replacement ++ out)

theorem Patched.unique {n : Nat} {t out out' : Text} {rs : List Revision}
    (h : Patched n t rs out) (h' : Patched n t rs out') : out = out' := by
  induction h generalizing out' with
  | nil => cases h'; rfl
  | @cons n r rs rest out gap hstart hstop _ ih =>
      generalize ht : gap ++ r.occurrence.text ++ rest = t at h'
      cases h' with
      | @cons _ _ _ rest' out'' gap' hstart' _ hrest' =>
          rw [List.append_assoc, List.append_assoc] at ht
          obtain ⟨rfl, htail⟩ := append_inj_of_bytes ht (by omega)
          obtain rfl := List.append_cancel_left htail
          rw [ih hrest']

/-- Revisions put into `source` from byte `cursor` on by slices of the whole text. There is no
answer if a slice is past the end, in the wrong order or inside a character. -/
def spliceSlices? (source : Text) (cursor : Nat) : List Revision → Option Text
  | [] => source.slice? cursor source.bytes
  | r :: revisions =>
      if r.occurrence.start < cursor ∨ ¬ r.Stands source then spliceSlices? source cursor revisions
      else do
        let gap ← source.slice? cursor r.occurrence.start
        let rest ← spliceSlices? source r.occurrence.stop revisions
        pure (gap ++ r.replacement ++ rest)

section Cut

variable {cursor : Nat} {front rest : Text} {o : Occurrence}

theorem cut?_eq_some {gap tail : Text} (h : cut? cursor rest o = some (gap, tail)) :
    rest = gap ++ o.text ++ tail ∧ o.start = cursor + gap.bytes ∧
      o.stop = o.start + o.text.bytes := by
  unfold cut? at h
  split at h
  next hguard =>
    simp only [Bool.and_eq_true, decide_eq_true_eq] at hguard
    obtain ⟨⟨before, behind⟩, hgap, hcut⟩ := Option.bind_eq_some_iff.1 h
    obtain ⟨⟨old, after⟩, hold, hsame⟩ := Option.bind_eq_some_iff.1 hcut
    obtain ⟨rfl, hbefore⟩ := splitAtByte?_eq_some hgap
    obtain ⟨rfl, hbytes⟩ := splitAtByte?_eq_some hold
    obtain ⟨htext, heq⟩ := Option.ite_none_right_eq_some.1 hsame
    obtain ⟨rfl, rfl⟩ := Prod.mk.inj (Option.some.inj heq)
    rw [← htext]
    refine ⟨(List.append_assoc _ _ _).symm, ?_, ?_⟩
    · omega
    · omega
  next => cases h

theorem cut?_eq_none {r : Revision} (hfront : front.bytes = cursor)
    (h : cut? cursor rest r.occurrence = none) :
    r.occurrence.start < cursor ∨ ¬ r.Stands (front ++ rest) := by
  refine Or.symm (Decidable.or_iff_not_imp_right.2 fun hstart hstands => ?_)
  obtain ⟨before, after, happend, hbefore, hstop⟩ := slice?_eq_some.1 hstands
  rw [List.append_assoc] at happend
  obtain ⟨gap, rfl, rfl⟩ := append_eq_of_bytes_le happend (by omega)
  rw [bytes_append] at hbefore
  rw [← List.append_assoc, cut?_append (by omega) hstop.symm] at h
  cases h

end Cut

structure Fares (source : Text) (cursor : Nat) (rest : Text) (xs applied : List (Revision × Nat)) :
    Prop where
  sublist : applied.Sublist xs
  stands : ∀ x ∈ applied, x.1.Stands source ∧ cursor ≤ x.1.occurrence.start
  apart : applied.Pairwise fun x y => x.1.occurrence.stop ≤ y.1.occurrence.start
  patched : Patched cursor rest (applied.map Prod.fst) (spliceFrom cursor rest (xs.map Prod.fst))
  sliced : spliceSlices? source cursor (xs.map Prod.fst) =
    some (spliceFrom cursor rest (xs.map Prod.fst))
  left : ∀ x ∈ xs, x.1.Stands source → x ∉ applied → x.1.occurrence.start < cursor ∨
    ∃ y ∈ applied, Precedes y x ∧ x.1.occurrence.start < y.1.occurrence.stop

namespace Fares

variable {source front rest : Text} {cursor : Nat} {x : Revision × Nat}
  {xs applied : List (Revision × Nat)}

theorem nil (hsource : front ++ rest = source) (hfront : front.bytes = cursor) :
    Fares source cursor rest [] [] where
  sublist := .slnil
  stands := by simp
  apart := .nil
  patched := .nil
  sliced := by
    have hrest : source.slice? cursor source.bytes = some rest := by
      apply slice?_eq_some.2
      refine ⟨front, [], by simp [hsource], hfront, ?_⟩
      rw [← hsource, bytes_append, hfront]
    exact hrest
  left := by simp

theorem skip (h : Fares source cursor rest xs applied)
    (hcut : cut? cursor rest x.1.occurrence = none)
    (hskip : x.1.occurrence.start < cursor ∨ ¬ x.1.Stands source) :
    Fares source cursor rest (x :: xs) applied := by
  have hsplice : spliceFrom cursor rest (x.1 :: xs.map Prod.fst) =
      spliceFrom cursor rest (xs.map Prod.fst) := by rw [spliceFrom, hcut]
  refine ⟨h.sublist.cons x, h.stands, h.apart, ?_, ?_, ?_⟩
  · rw [List.map_cons, hsplice]
    exact h.patched
  · rw [List.map_cons, hsplice, spliceSlices?, if_pos hskip]
    exact h.sliced
  · intro y hy hstands hleft
    rcases List.mem_cons.1 hy with rfl | hy
    · exact .inl (hskip.resolve_right (not_not_intro hstands))
    · exact h.left y hy hstands hleft

theorem put {gap tail : Text} (h : Fares source x.1.occurrence.stop tail xs applied)
    (hcut : cut? cursor rest x.1.occurrence = some (gap, tail)) (hstands : x.1.Stands source)
    (hgap : source.slice? cursor x.1.occurrence.start = some gap)
    (hfirst : ∀ y ∈ xs, Precedes x y) :
    Fares source cursor rest (x :: xs) (x :: applied) := by
  have hsplice := spliceFrom_cut hcut (xs.map Prod.fst)
  obtain ⟨rfl, hstart, hstop⟩ := cut?_eq_some hcut
  refine ⟨h.sublist.cons_cons x, ?_, ?_, ?_, ?_, ?_⟩
  · rw [List.forall_mem_cons]
    refine ⟨⟨hstands, by omega⟩, fun y hy => ?_⟩
    obtain ⟨hystands, hbehind⟩ := h.stands y hy
    exact ⟨hystands, by omega⟩
  · exact List.pairwise_cons.2 ⟨fun y hy => (h.stands y hy).2, h.apart⟩
  · rw [List.map_cons, List.map_cons, hsplice]
    exact .cons gap hstart hstop h.patched
  · have hput : ¬(x.1.occurrence.start < cursor ∨ ¬ x.1.Stands source) := by
      rintro (hlt | hnot)
      · omega
      · exact hnot hstands
    rw [List.map_cons, hsplice, spliceSlices?, if_neg hput, hgap, h.sliced]
    rfl
  · intro y hy hystands hleft
    rcases List.mem_cons.1 hy with rfl | hy
    · exact absurd List.mem_cons_self hleft
    · -- what begins before the new cursor begins before the end of `x`
      rcases h.left y hy hystands fun hmem => hleft (List.mem_cons_of_mem x hmem) with
        hbefore | ⟨z, hz, hprecedes, hinside⟩
      · exact .inr ⟨x, List.mem_cons_self, hfirst y hy, hbefore⟩
      · exact .inr ⟨z, List.mem_cons_of_mem x hz, hprecedes, hinside⟩

end Fares

theorem exists_fares {source front rest : Text} {cursor : Nat} {xs : List (Revision × Nat)}
    (hxs : xs.Pairwise Precedes) (hsource : front ++ rest = source)
    (hfront : front.bytes = cursor) : ∃ applied, Fares source cursor rest xs applied := by
  induction xs generalizing front rest cursor with
  | nil => exact ⟨[], .nil hsource hfront⟩
  | cons x xs ih =>
      obtain ⟨hfirst, hrest⟩ := List.pairwise_cons.1 hxs
      cases hcut : cut? cursor rest x.1.occurrence with
      | none =>
          obtain ⟨applied, h⟩ := ih hrest hsource hfront
          exact ⟨applied, h.skip hcut (hsource ▸ cut?_eq_none hfront hcut)⟩
      | some cuts =>
          obtain ⟨gap, tail⟩ := cuts
          obtain ⟨rfl, hstart, hstop⟩ := cut?_eq_some hcut
          have hwhole : (front ++ gap ++ x.1.occurrence.text) ++ tail = source := by
            rw [← hsource]
            simp only [List.append_assoc]
          have hstands : x.1.Stands source := by
            apply slice?_eq_some.2
            refine ⟨front ++ gap, tail, hwhole.symm, ?_, hstop.symm⟩
            rw [bytes_append, hfront, hstart]
          have hgap : source.slice? cursor x.1.occurrence.start = some gap := by
            apply slice?_eq_some.2
            refine ⟨front, x.1.occurrence.text ++ tail, ?_, hfront, hstart.symm⟩
            rw [← hwhole, List.append_assoc]
          have hbytes : (front ++ gap ++ x.1.occurrence.text).bytes = x.1.occurrence.stop := by
            rw [bytes_append, bytes_append, hfront, hstop, hstart]
          obtain ⟨applied, h⟩ := ih hrest hwhole hbytes
          exact ⟨x :: applied, h.put hcut hstands hgap hfirst⟩

section Order

variable (revisions : List Revision)

def startsBefore (a b : Revision) : Bool := a.occurrence.start ≤ b.occurrence.start

def ordered : List (Revision × Nat) :=
  (eligible revisions).zipIdx.mergeSort (List.zipIdxLE startsBefore)

theorem ordered_map_fst : (ordered revisions).map Prod.fst =
    (eligible revisions).mergeSort fun a b => a.occurrence.start ≤ b.occurrence.start :=
  List.mergeSort_zipIdx

theorem ordered_perm : (ordered revisions).Perm (eligible revisions).zipIdx :=
  List.mergeSort_perm _ _

theorem nodup_zipIdx {α : Type} (xs : List α) : xs.zipIdx.Nodup :=
  (List.nodup_zipIdx_map_snd xs).of_map

theorem ordered_pairwise : (ordered revisions).Pairwise Precedes := by
  have htrans : ∀ a b c, startsBefore a b = true → startsBefore b c = true →
      startsBefore a c = true := by
    simp only [startsBefore, decide_eq_true_eq]
    omega
  have htotal : ∀ a b, (startsBefore a b || startsBefore b a) = true := by
    simp only [startsBefore, Bool.or_eq_true, decide_eq_true_eq]
    omega
  have hsorted := List.pairwise_mergeSort (List.zipIdxLE_trans htrans) (List.zipIdxLE_total htotal)
    (eligible revisions).zipIdx
  have hdistinct : (ordered revisions).Pairwise fun x y => x.2 ≠ y.2 := by
    have hnumbers := ((ordered_perm revisions).map Prod.snd).nodup_iff.2
      (List.nodup_zipIdx_map_snd _)
    exact List.pairwise_map.1 hnumbers
  refine (hsorted.and hdistinct).imp fun {x y} ⟨hle, hne⟩ => ?_
  simp only [List.zipIdxLE, startsBefore, decide_eq_true_eq] at hle
  unfold Precedes
  split at hle
  · split at hle
    · exact .inr ⟨by omega, Nat.lt_of_le_of_ne (of_decide_eq_true hle) hne⟩
    · exact .inl (by omega)
  · cases hle

end Order

structure Applied (source : Text) (revisions : List Revision) (applied : List (Revision × Nat)) :
    Prop where
  eligible : ∀ x ∈ applied, x ∈ (eligible revisions).zipIdx ∧ x.1.changed = true ∧
    quotingError? x.1.occurrence x.1.replacement = none ∧ x.1.Stands source
  ordered : applied.Pairwise fun x y => Precedes x y ∧ x.1.occurrence.stop ≤ y.1.occurrence.start
  left : ∀ x ∈ (EmbeddedSql.eligible revisions).zipIdx, x.1.Stands source → x ∉ applied →
    ∃ y ∈ applied, Precedes y x ∧ x.1.occurrence.start < y.1.occurrence.stop

theorem exists_applied (source : Text) (revisions : List Revision) :
    ∃ applied, Applied source revisions applied ∧
      Patched 0 source (applied.map Prod.fst) (splice source revisions).text ∧
      spliceSlices? source 0 ((eligible revisions).mergeSort fun a b =>
        a.occurrence.start ≤ b.occurrence.start) = some (splice source revisions).text := by
  have hpairwise := ordered_pairwise revisions
  have hperm := ordered_perm revisions
  obtain ⟨applied, h⟩ := exists_fares hpairwise (List.nil_append source) bytes_nil
  rw [splice, ← ordered_map_fst]
  refine ⟨applied, ⟨fun x hx => ?_, ?_, ?_⟩, h.patched, h.sliced⟩
  · have hmem := hperm.mem_iff.1 (h.sublist.subset hx)
    obtain ⟨-, hchosen⟩ := List.mem_filter.1 (List.fst_mem_of_mem_zipIdx hmem)
    obtain ⟨hchanged, hfits⟩ := Bool.and_eq_true_iff.1 hchosen
    exact ⟨hmem, hchanged, Option.isNone_iff_eq_none.1 hfits, (h.stands x hx).1⟩
  · exact (hpairwise.sublist h.sublist).and h.apart
  · intro x hx hstands hleft
    rcases h.left x (hperm.mem_iff.2 hx) hstands hleft with hbefore | hinside
    · exact absurd hbefore (Nat.not_lt_zero _)
    · exact hinside

/-- Literals that do not overlap and do not start together. An empty one inside another one overlaps
it. -/
def Apart (a b : Revision) : Prop :=
  (a.occurrence.stop ≤ b.occurrence.start ∨ b.occurrence.stop ≤ a.occurrence.start) ∧
    a.occurrence.start ≠ b.occurrence.start

theorem Apart.symm {a b : Revision} (h : Apart a b) : Apart b a := ⟨h.1.symm, h.2.symm⟩

instance (a b : Revision) : Decidable (Apart a b) := inferInstanceAs (Decidable (_ ∧ _))

instance : Std.Symm Apart := ⟨fun _ _ => Apart.symm⟩

instance : Std.Symm fun x y : Revision × Nat => Apart x.1 y.1 := ⟨fun _ _ => Apart.symm⟩

def standing (source : Text) (revisions : List Revision) : List Revision :=
  (eligible revisions).filter fun r => r.Stands source

theorem Revision.Stands.start_le {source : Text} {r : Revision} (h : r.Stands source) :
    r.occurrence.start ≤ r.occurrence.stop := by
  obtain ⟨-, -, -, -, hstop⟩ := slice?_eq_some.1 h
  omega

theorem standing_eq (source : Text) (revisions : List Revision) :
    ((eligible revisions).zipIdx.filter fun x => x.1.Stands source).map Prod.fst =
      standing source revisions := by
  have hmap := List.filter_map (f := Prod.fst) (p := fun r : Revision => decide (r.Stands source))
    (l := (eligible revisions).zipIdx)
  rw [List.zipIdx_map_fst] at hmap
  exact hmap.symm

namespace Applied

variable {source : Text} {revisions : List Revision} {applied : List (Revision × Nat)}
  (h : Applied source revisions applied)

include h

theorem starts_le : (applied.map Prod.fst).Pairwise fun a b =>
    a.occurrence.start ≤ b.occurrence.start := by
  apply List.pairwise_map.2
  refine h.ordered.imp fun {x y} ⟨hprecedes, _⟩ => ?_
  rcases hprecedes with hlt | ⟨heq, -⟩ <;> omega

theorem nodup : applied.Nodup := by
  refine h.ordered.imp fun {x y} ⟨hprecedes, _⟩ => ?_
  rintro rfl
  rcases hprecedes with hlt | ⟨-, hlt⟩
  · exact Nat.lt_irrefl _ hlt
  · exact Nat.lt_irrefl _ hlt

variable (hapart : (standing source revisions).Pairwise Apart)

include hapart

theorem complete : ∀ x ∈ (EmbeddedSql.eligible revisions).zipIdx, x.1.Stands source →
    x ∈ applied := by
  intro x hx hstands
  by_contra hleft
  obtain ⟨y, hy, hprecedes, hinside⟩ := h.left x hx hstands hleft
  obtain ⟨hyx, -, -, hystands⟩ := h.eligible y hy
  rw [← standing_eq, List.pairwise_map] at hapart
  have hboth : Apart y.1 x.1 := hapart.forall
    (List.mem_filter.2 ⟨hyx, decide_eq_true hystands⟩)
    (List.mem_filter.2 ⟨hx, decide_eq_true hstands⟩) (fun heq => hleft (heq ▸ hy))
  have hle := hstands.start_le
  obtain ⟨hbefore | hbehind, hne⟩ := hboth
  · omega
  · rcases hprecedes with hlt | ⟨heq, -⟩
    · omega
    · exact hne heq

theorem perm_standing : (applied.map Prod.fst).Perm (standing source revisions) := by
  rw [← standing_eq]
  apply List.Perm.map
  apply (List.perm_ext_iff_of_nodup h.nodup ((nodup_zipIdx _).filter _)).2
  intro x
  rw [List.mem_filter, decide_eq_true_iff]
  constructor
  · intro hx
    obtain ⟨hmem, -, -, hstands⟩ := h.eligible x hx
    exact ⟨hmem, hstands⟩
  · rintro ⟨hmem, hstands⟩
    exact h.complete hapart x hmem hstands

end Applied

theorem splice_perm {source : Text} {revisions revisions' : List Revision}
    (hapart : (standing source revisions).Pairwise Apart) (hperm : revisions'.Perm revisions) :
    (splice source revisions').text = (splice source revisions).text := by
  have hstanding : (standing source revisions').Perm (standing source revisions) :=
    (hperm.filter _).filter _
  have hapart' : (standing source revisions').Pairwise Apart :=
    (hstanding.pairwise_iff Apart.symm).2 hapart
  obtain ⟨applied, happlied, hpatched, -⟩ := exists_applied source revisions
  obtain ⟨applied', happlied', hpatched', -⟩ := exists_applied source revisions'
  have hall := happlied.perm_standing hapart
  have hsame := (happlied'.perm_standing hapart').trans (hstanding.trans hall.symm)
  have heq : applied'.map Prod.fst = applied.map Prod.fst := by
    refine hsame.eq_of_pairwise (fun a b ha hb hle hle' => ?_) happlied'.starts_le
      happlied.starts_le
    by_contra hne
    have hab : Apart a b :=
      hapart.forall (hall.mem_iff.1 (hsame.mem_iff.1 ha)) (hall.mem_iff.1 hb) hne
    exact hab.2 (Nat.le_antisymm hle hle')
  rw [heq] at hpatched'
  exact hpatched'.unique hpatched

theorem splice_exact (source : Text) (revisions : List Revision) :
    ∃ applied, Applied source revisions applied ∧
      Patched 0 source (applied.map Prod.fst) (splice source revisions).text ∧
      spliceSlices? source 0 ((eligible revisions).mergeSort fun a b =>
        a.occurrence.start ≤ b.occurrence.start) = some (splice source revisions).text ∧
      (splice source revisions).failures = (revisions.filter Revision.changed).filterMap
        (fun r => quotingError? r.occurrence r.replacement) ∧
      ((standing source revisions).Pairwise Apart →
        (∀ x ∈ (eligible revisions).zipIdx, x.1.Stands source → x ∈ applied) ∧
        ∀ revisions', revisions'.Perm revisions →
          (splice source revisions').text = (splice source revisions).text) := by
  obtain ⟨applied, happlied, hpatched, hsliced⟩ := exists_applied source revisions
  refine ⟨applied, happlied, hpatched, hsliced, rfl, fun hapart => ⟨?_, ?_⟩⟩
  · exact happlied.complete hapart
  · intro revisions' hperm
    exact splice_perm hapart hperm

theorem splice_exact_swapped :
    let first : Revision := ⟨⟨['a'], none, 0, 1, .double⟩, ['x', 'y'], true⟩
    let second : Revision := ⟨⟨['é'], none, 1, 3, .double⟩, [], true⟩
    let stale : Revision := ⟨⟨['b'], none, 2, 3, .double⟩, ['z'], true⟩
    (standing ['a', 'é'] [second, stale, first]).Pairwise Apart ∧
      (splice ['a', 'é'] [first, stale, second]).text =
        (splice ['a', 'é'] [second, stale, first]).text := by
  intro first second stale
  have hapart : (standing ['a', 'é'] [second, stale, first]).Pairwise Apart := by decide
  obtain ⟨_, _, _, _, _, hall⟩ := splice_exact ['a', 'é'] [second, stale, first]
  exact ⟨hapart, (hall hapart).2 _ (by decide)⟩

end EmbeddedSql
