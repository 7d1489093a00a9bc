import EmbeddedSql.Files.Discovery

namespace EmbeddedSql

namespace Component

def spelled : Component → Text
  | .name n => n
  | _ => []

theorem compare_eq_compareLex :
    Component.compare = compareLex (compareOn rank) (compareOn spelled) := by
  funext a b
  cases a <;> cases b <;> rfl

instance : Std.TransCmp Component.compare := by
  rw [compare_eq_compareLex]
  infer_instance

instance : Std.LawfulEqCmp Component.compare where
  eq_of_compare := by
    intro a b h
    rw [compare_eq_compareLex, compareLex_eq_eq] at h
    have hrank : a.rank = b.rank := Std.LawfulEqOrd.eq_of_compare h.1
    have hspelled : a.spelled = b.spelled := Std.LawfulEqOrd.eq_of_compare h.2
    cases a <;> cases b <;> simp_all [rank, spelled]

end Component

namespace Path

instance : Std.TransCmp Path.compare where
  eq_swap := by
    intro p q
    change List.compareLex Component.compare p.components q.components =
      (List.compareLex Component.compare q.components p.components).swap
    exact Std.OrientedCmp.eq_swap
  isLE_trans := by
    intro p q r
    change (List.compareLex Component.compare p.components q.components).isLE →
      (List.compareLex Component.compare q.components r.components).isLE →
      (List.compareLex Component.compare p.components r.components).isLE
    exact Std.TransCmp.isLE_trans

variable {p q : Path}

theorem compare_eq_iff : p.compare q = .eq ↔ p.components = q.components := by
  change List.compareLex Component.compare p.components q.components = .eq ↔ _
  exact Std.LawfulEqCmp.compare_eq_iff_eq

theorem components_ne_of_compare_lt (h : p.compare q = .lt) : p.components ≠ q.components := by
  intro heq
  rw [compare_eq_iff.2 heq] at h
  cases h

def Increasing (ps : List Path) : Prop := ps.Pairwise fun p q => p.compare q = .lt

theorem mem_insert {ps : List Path} (h : q ∈ p.insert ps) : q = p ∨ q ∈ ps := by
  induction ps with
  | nil => exact .inl (by simpa [insert] using h)
  | cons r ps ih =>
      rw [insert] at h
      split at h
      · simpa using h
      · exact .inr h
      · rcases List.mem_cons.1 h with rfl | h
        · exact .inr (by simp)
        · exact (ih h).imp id (List.mem_cons_of_mem r)

theorem increasing_insert {ps : List Path} (h : Increasing ps) : Increasing (p.insert ps) := by
  induction ps with
  | nil => exact List.pairwise_singleton ..
  | cons q ps ih =>
      obtain ⟨hq, hps⟩ := List.pairwise_cons.1 h
      rw [insert]
      split
      next hlt =>
        refine List.pairwise_cons.2 ⟨?_, h⟩
        intro r hr
        rcases List.mem_cons.1 hr with rfl | hr
        · exact hlt
        · exact Std.TransCmp.lt_trans hlt (hq r hr)
      · exact h
      next hgt =>
        refine List.pairwise_cons.2 ⟨?_, ih hps⟩
        intro r hr
        rcases mem_insert hr with rfl | hr
        · exact Std.OrientedCmp.lt_of_gt hgt
        · exact hq r hr

theorem increasing_foldl_insert (found : List Path) {ps : List Path} (h : Increasing ps) :
    Increasing (found.foldl (fun ps p => p.insert ps) ps) := by
  induction found generalizing ps with
  | nil => exact h
  | cons p found ih => exact ih (increasing_insert h)

theorem mem_foldl_insert {found ps : List Path} (h : q ∈ found.foldl (fun ps p => p.insert ps) ps) :
    q ∈ found ∨ q ∈ ps := by
  induction found generalizing ps with
  | nil => exact .inr h
  | cons p found ih =>
      rcases ih h with h | h
      · exact .inl (List.mem_cons_of_mem p h)
      · rcases mem_insert h with rfl | h
        · exact .inl (by simp)
        · exact .inr h

theorem mem_insert_of_mem {ps : List Path} (h : q ∈ ps) : q ∈ p.insert ps := by
  induction ps with
  | nil => cases h
  | cons r ps ih =>
      rw [insert]
      split
      · exact List.mem_cons_of_mem p h
      · exact h
      · rcases List.mem_cons.1 h with rfl | h
        · simp
        · exact List.mem_cons_of_mem r (ih h)

theorem exists_mem_insert (p : Path) (ps : List Path) :
    ∃ q ∈ p.insert ps, q.components = p.components := by
  induction ps with
  | nil => exact ⟨p, by simp [insert], rfl⟩
  | cons r ps ih =>
      rw [insert]
      split
      · exact ⟨p, by simp, rfl⟩
      next heq => exact ⟨r, by simp, (compare_eq_iff.1 heq).symm⟩
      · obtain ⟨q, hq, hcomponents⟩ := ih
        exact ⟨q, List.mem_cons_of_mem r hq, hcomponents⟩

theorem mem_foldl_insert_of_mem (found : List Path) {ps : List Path} (h : q ∈ ps) :
    q ∈ found.foldl (fun ps p => p.insert ps) ps := by
  induction found generalizing ps with
  | nil => exact h
  | cons p found ih => exact ih (mem_insert_of_mem h)

theorem exists_mem_foldl_insert {found : List Path} (ps : List Path) (h : p ∈ found) :
    ∃ q ∈ found.foldl (fun ps p => p.insert ps) ps, q.components = p.components := by
  induction found generalizing ps with
  | nil => cases h
  | cons r found ih =>
      rcases List.mem_cons.1 h with rfl | h
      · obtain ⟨q, hq, hcomponents⟩ := exists_mem_insert p ps
        exact ⟨q, mem_foldl_insert_of_mem found hq, hcomponents⟩
      · exact ih (r.insert ps) h

end Path

theorem exists_matchingPaths (fs : FileSystem) {s : Settings} (inputs : List Path)
    {patterns : List (List Glob)} (h : excludePatterns s.exclude = .ok patterns) :
    ∃ paths, matchingPaths fs s inputs = .ok paths := by
  unfold matchingPaths
  rw [h]
  exact ⟨_, rfl⟩

theorem exists_of_matchingPaths {fs : FileSystem} {s : Settings} {inputs paths : List Path}
    (h : matchingPaths fs s inputs = .ok paths) :
    ∃ patterns, excludePatterns s.exclude = .ok patterns ∧ Path.Increasing paths ∧
      (∀ p ∈ paths, ∃ input ∈ inputs, p ∈ inputSources fs (isExcluded patterns) input) ∧
      ∀ input ∈ inputs, ∀ p ∈ inputSources fs (isExcluded patterns) input,
        ∃ q ∈ paths, q.components = p.components := by
  unfold matchingPaths at h
  cases hpatterns : excludePatterns s.exclude with
  | error e => simp [hpatterns, bind, Except.bind] at h
  | ok patterns =>
      obtain rfl : _ = paths := by simpa [hpatterns, bind, Except.bind, pure, Except.pure] using h
      refine ⟨patterns, rfl, Path.increasing_foldl_insert _ .nil, ?_, ?_⟩
      · intro p hp
        rcases Path.mem_foldl_insert hp with hp | hp
        · exact List.mem_flatMap.1 hp
        · cases hp
      · intro input hinput p hp
        exact Path.exists_mem_foldl_insert [] (List.mem_flatMap.2 ⟨input, hinput, hp⟩)

end EmbeddedSql
