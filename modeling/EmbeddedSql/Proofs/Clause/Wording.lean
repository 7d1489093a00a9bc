import EmbeddedSql.Proofs.Clause.Partition
import EmbeddedSql.Proofs.Text.Casing

namespace EmbeddedSql

open Text

theorem KeywordCase.break_mem_text (case : KeywordCase) (t : Text) :
    '\n' ∈ case.text t ↔ '\n' ∈ t := by
  have hcontains := case.contains_text t (m := '\n') (by simp)
  rwa [Bool.eq_iff_iff, List.contains_iff_mem, List.contains_iff_mem] at hcontains

theorem Token.unbroken_of_upper {t : Token} {word : String}
    (h : String.ofList t.text.upper = word) (hword : '\n' ∉ word.toList) : '\n' ∉ t.text := by
  rw [← h, String.toList_ofList] at hword
  exact fun hbreak => hword ((KeywordCase.upper.break_mem_text t.text).2 hbreak)

theorem Clause.unbroken_of_joinModifier {t : Token}
    (h : joinModifiers.contains t.text.upper = true) : '\n' ∉ t.text := by
  have hwords : ∀ word ∈ joinModifiers, '\n' ∉ word := by decide
  have hupper := hwords _ (List.contains_iff_mem.1 h)
  exact fun hbreak => hupper ((KeywordCase.upper.break_mem_text t.text).2 hbreak)

theorem Token.unbroken_of_isKeywordAmong {t : Token} {words : List Text}
    (h : t.isKeywordAmong words = true) (hwords : ∀ word ∈ words, '\n' ∉ word) :
    '\n' ∉ t.text := by
  obtain ⟨word, hword, hnamed⟩ := List.any_eq_true.1 h
  have hlower : t.text.lower = word.lower := by
    simpa [equalsIgnoringCase] using (Bool.and_eq_true_iff.1 hnamed).2
  intro hbreak
  have hbreak' : '\n' ∈ t.text.lower := (KeywordCase.lower.break_mem_text t.text).2 hbreak
  rw [hlower] at hbreak'
  exact hwords word hword ((KeywordCase.lower.break_mem_text word).1 hbreak')

theorem Clause.optional_isKeywordAmong (ts : List Token) (words : List String) :
    ∀ t ∈ ts.take (optional ts.head? words),
      t.isKeywordAmong (words.map String.toList) = true := by
  intro t ht
  unfold optional at ht
  split at ht
  next hany =>
    cases ts with
    | nil => simp at ht
    | cons u us =>
        obtain rfl : t = u := by simpa using ht
        exact hany
  next => simp at ht

theorem Clause.optional_unbroken {ts : List Token} {words : List String}
    (hwords : ∀ word ∈ words, '\n' ∉ word.toList) :
    ∀ t ∈ ts.take (optional ts.head? words), '\n' ∉ t.text := fun t ht =>
  Token.unbroken_of_isKeywordAmong (optional_isKeywordAmong ts words t ht) (by simpa using hwords)

theorem Clause.joinHead_unbroken {ts : List Token}
    (h : optional (ts.drop (ts.takeWhile (·.isKeywordAmong joinModifiers)).length).head?
      ["JOIN"] = 1) :
    ∀ t ∈ ts.take ((ts.takeWhile (·.isKeywordAmong joinModifiers)).length + 1),
      '\n' ∉ t.text := by
  have hnext : ∀ t ∈ (ts.drop (ts.takeWhile (·.isKeywordAmong joinModifiers)).length).take 1,
      '\n' ∉ t.text := by
    rw [← h]
    exact optional_unbroken (by decide)
  intro t ht
  rw [List.take_add] at ht
  rcases List.mem_append.1 ht with ht | ht
  · rw [← List.prefix_iff_eq_take.1 (List.takeWhile_prefix _)] at ht
    exact Token.unbroken_of_isKeywordAmong (List.all_eq_true.1 List.all_takeWhile t ht) (by decide)
  · exact hnext t ht

theorem Clause.head?_unbroken {previous : Option Token} {current kind : ClauseKind}
    {atStart : Bool} {t : Token} {r : List Token} {n : Nat}
    (h : head? previous current atStart t r = some (kind, n)) :
    ∀ u ∈ t :: r.take n, '\n' ∉ u.text := by
  have hby (hopt : optional r.head? ["BY"] = 1) : ∀ u ∈ r.take 1, '\n' ∉ u.text := by
    rw [← hopt]
    exact optional_unbroken (by decide)
  rw [List.forall_mem_cons]
  -- each branch knows its first word, and the words after it are looked for by name
  simp only [head?] at h
  split at h <;> (try split at h) <;>
    simp only [Option.some.injEq, Prod.mk.injEq, reduceCtorEq] at h
  all_goals obtain ⟨-, rfl⟩ := h
  all_goals constructor
  all_goals first
    | exact Token.unbroken_of_upper ‹String.ofList _ = _› (by decide)
    | exact optional_unbroken (by decide)
    | exact hby (by assumption)
    | exact fun u hu => by simp at hu
    | exact unbroken_of_joinModifier (Bool.and_eq_true_iff.1 ‹(_ && _) = true›).1
    | exact joinHead_unbroken (of_decide_eq_true (Bool.and_eq_true_iff.1 ‹(_ && _) = true›).2)

theorem splitClauses_unbroken (ts : List Token) :
    ∀ c ∈ splitClauses ts, ∀ t ∈ c.head, '\n' ∉ t.text :=
  splitClauses_forall (fun _ h => Clause.head?_unbroken h) (fun _ => by simp) ts

def Clause.selectWords : List Text := ["SELECT", "DISTINCT", "ALL"].map String.toList

theorem Token.isKeywordNamed_of_upper {t : Token} {word : String} (hkey : t.isKeyword = true)
    (h : String.ofList t.text.upper = word) : t.isKeywordNamed word.toList = true := by
  have hlower : t.text.upper.lower = t.text.lower := by
    simp [lower, upper, Function.comp_def, toLower_toUpper]
  rw [← h, String.toList_ofList, isKeywordNamed, equalsIgnoringCase, hkey, hlower, beq_self_eq_true]
  rfl

theorem Clause.head?_selectWords {previous : Option Token} {current : ClauseKind} {atStart : Bool}
    {t : Token} {r : List Token} {n : Nat} (hkey : t.isKeyword = true)
    (h : head? previous current atStart t r = some (.selectList, n)) :
    ∀ u ∈ t :: r.take n, u.isKeywordAmong selectWords = true := by
  simp only [head?] at h
  split at h <;> (try split at h) <;>
    simp only [Option.some.injEq, Prod.mk.injEq, reduceCtorEq, false_and, true_and] at h
  next hselect =>
    subst h
    refine List.forall_mem_cons.2 ⟨?_, fun u hu => ?_⟩
    · exact List.any_eq_true.2 ⟨_, .head _, Token.isKeywordNamed_of_upper hkey hselect⟩
    · obtain ⟨word, hword, hnamed⟩ :=
        List.any_eq_true.1 (optional_isKeywordAmong r ["DISTINCT", "ALL"] u hu)
      exact List.any_eq_true.2 ⟨word, .tail _ hword, hnamed⟩

theorem splitClauses_selectWords (ts : List Token) :
    ∀ c ∈ splitClauses ts, c.kind = .selectList →
      ∀ t ∈ c.head, t.isKeywordAmong Clause.selectWords = true := by
  refine splitClauses_forall ?_ (fun _ hkind => nomatch hkind) ts
  rintro previous current atStart t r kind n body hkey h rfl
  exact Clause.head?_selectWords hkey h

end EmbeddedSql
