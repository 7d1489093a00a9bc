import Mathlib.Data.List.DropRight
import Mathlib.Data.List.TakeWhile
import EmbeddedSql.Text.Basic

namespace EmbeddedSql.Text

variable {p : Char → Bool} {t u : Text}

theorem takeWhile_append_of_head? (h : ∀ c ∈ u.head?, p c = false) :
    (t ++ u).takeWhile p = t.takeWhile p := by
  have hstop : u.takeWhile p = [] := by
    cases u with
    | nil => rfl
    | cons c r => rw [List.takeWhile_cons, h c rfl]; rfl
  rw [List.takeWhile_append, hstop, List.append_nil]
  split
  next hall => exact ((List.takeWhile_prefix p).eq_of_length hall).symm
  next => rfl

theorem takeWhile_run (ht : ∀ c ∈ t, p c = true) (hu : ∀ c ∈ u.head?, p c = false) :
    (t ++ u).takeWhile p = t := by
  rw [takeWhile_append_of_head? hu, List.takeWhile_eq_self_iff.2 ht]

theorem dropWhile_of_head? (h : ∀ c ∈ t.head?, p c = false) : t.dropWhile p = t := by
  cases t with
  | nil => rfl
  | cons c r => rw [List.dropWhile_cons, h c rfl]; rfl

theorem dropWhile_run (ht : ∀ c ∈ t, p c = true) (hu : ∀ c ∈ u.head?, p c = false) :
    (t ++ u).dropWhile p = u := by
  rw [List.dropWhile_append_of_pos ht, dropWhile_of_head? hu]

theorem forall_getLast?_append {P : Char → Prop} (ht : ∀ c ∈ t.getLast?, P c)
    (hu : ∀ c ∈ u.getLast?, P c) : ∀ c ∈ (t ++ u).getLast?, P c := by
  intro c hc
  rw [List.getLast?_append] at hc
  cases hlast : u.getLast? with
  | none =>
      rw [hlast] at hc
      exact ht c hc
  | some d =>
      rw [hlast] at hc
      exact Option.some.inj hc ▸ hu d hlast

theorem trimEndWhile_eq_rdropWhile (p : Char → Bool) (t : Text) :
    trimEndWhile p t = t.rdropWhile p := rfl

theorem trimEndWhile_append_cons {c : Char} (hc : p c = false) (s t : Text) :
    trimEndWhile p (s ++ c :: t) = s ++ c :: trimEndWhile p t := by
  simp only [trimEndWhile_eq_rdropWhile]
  induction t using List.reverseRecOn with
  | nil =>
      rw [List.rdropWhile_concat_neg p s c (by simp [hc])]
      rfl
  | append_singleton t d ih =>
      rw [← List.cons_append, ← List.append_assoc, List.rdropWhile_concat, List.rdropWhile_concat,
        ih]
      split
      · rfl
      · rw [List.append_assoc, List.cons_append]

theorem trimEndWhile_of_getLast? (h : ∀ c ∈ t.getLast?, p c = false) : trimEndWhile p t = t := by
  rw [trimEndWhile_eq_rdropWhile, List.rdropWhile_eq_self_iff]
  intro hne
  simp [h _ (List.getLast?_eq_some_getLast hne)]

theorem exists_trimEnd (t : Text) : ∃ w, t = trimEnd t ++ w ∧ (∀ c ∈ w, isBlank c = true) ∧
    ∀ c ∈ (trimEnd t).getLast?, isBlank c = false := by
  refine ⟨(t.reverse.takeWhile isBlank).reverse, ?_, ?_, ?_⟩
  · rw [trimEnd, trimEndWhile, ← List.reverse_append, List.takeWhile_append_dropWhile,
      List.reverse_reverse]
  · intro c hc
    exact List.all_eq_true.1 List.all_takeWhile c (List.mem_reverse.1 hc)
  · intro c hc
    rw [trimEnd, trimEndWhile, List.getLast?_reverse] at hc
    have hhead := List.head?_dropWhile_not isBlank t.reverse
    rw [Option.mem_def.1 hc] at hhead
    exact hhead

end EmbeddedSql.Text
