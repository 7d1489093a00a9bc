import EmbeddedSql.Clause.Splitting
import EmbeddedSql.Proofs.Token.Likeness

namespace EmbeddedSql

def openAfter (depth : Nat) : List Token → Option Nat
  | [] => some depth
  | t :: r =>
      if depth = 0 && t.isPunct ';' then none else openAfter (Token.depthAfter depth t) r

theorem openAfter_append (depth : Nat) (ts us : List Token) :
    openAfter depth (ts ++ us) = (openAfter depth ts).bind (openAfter · us) := by
  induction ts generalizing depth with
  | nil => rfl
  | cons t ts ih =>
      rw [List.cons_append, openAfter, openAfter]
      split
      · rfl
      · exact ih _

theorem blank_idle {t : Token} (h : t.isSignificant = false) :
    t.isPunct ';' = false ∧ ∀ depth, Token.depthAfter depth t = depth := by
  have hkind : t.kind = .blank := by simpa [Token.isSignificant, TokenKind.isSignificant] using h
  have hpunct (c : Char) : t.isPunct c = false := by simp [Token.isPunct, hkind]
  exact ⟨hpunct ';', fun depth => by
    simp [Token.depthAfter, Token.isOpening, Token.isClosing, hpunct]⟩

theorem openAfter_filter (depth : Nat) (ts : List Token) :
    openAfter depth (ts.filter Token.isSignificant) = openAfter depth ts := by
  induction ts generalizing depth with
  | nil => rfl
  | cons t ts ih =>
      cases hsig : t.isSignificant with
      | true => rw [List.filter_cons_of_pos hsig, openAfter, openAfter, ih]
      | false =>
          obtain ⟨hpunct, hdepth⟩ := blank_idle hsig
          rw [List.filter_cons_of_neg (by simp [hsig]), ih, openAfter, hpunct, hdepth,
            Bool.and_false, if_neg (by simp)]

theorem Layout.Alike.openAfter {case : KeywordCase} {b : Bool} {ts qs : List Token}
    (h : Alike case b ts qs) (depth : Nat) :
    openAfter depth qs = EmbeddedSql.openAfter depth ts := by
  induction h generalizing depth with
  | nil => rfl
  | twin ht _ ih => simp only [EmbeddedSql.openAfter, ht.isPunct, ht.depthAfter, ih]
  | joined hj _ ih =>
      obtain ⟨hp, hu, hq⟩ := hj.plain
      simp only [EmbeddedSql.openAfter, hp.isPunct, hu.isPunct, hq.isPunct, hp.depthAfter,
        hu.depthAfter, hq.depthAfter, Bool.and_false, Bool.false_eq_true, if_false, ih]

theorem firstStatementFrom?_isSome_filter (depth : Nat) (ts : List Token) :
    (firstStatementFrom? depth (ts.filter Token.isSignificant)).isSome =
      (firstStatementFrom? depth ts).isSome := by
  induction ts generalizing depth with
  | nil => rfl
  | cons t ts ih =>
      cases hsig : t.isSignificant with
      | true =>
          rw [List.filter_cons_of_pos hsig, firstStatementFrom?, firstStatementFrom?]
          split
          · rw [List.any_filter]
            simp
          · rw [Option.isSome_map, Option.isSome_map, ih]
      | false =>
          obtain ⟨hpunct, hdepth⟩ := blank_idle hsig
          rw [List.filter_cons_of_neg (by simp [hsig]), ih, firstStatementFrom?, hpunct, hdepth,
            Bool.and_false, if_neg (by simp), Option.isSome_map]

theorem Layout.Alike.any_isSignificant {case : KeywordCase} {b : Bool} {ts qs : List Token}
    (h : Alike case b ts qs) : qs.any Token.isSignificant = ts.any Token.isSignificant := by
  induction h with
  | nil => rfl
  | twin ht _ ih => rw [List.any_cons, List.any_cons, Token.isSignificant, ht.kind, ih]; rfl
  | joined hj _ _ =>
      have hsig {t : Token} (ht : IsPlain t) : t.isSignificant = true := by
        rcases ht with ht | ht <;> simp [Token.isSignificant, ht, TokenKind.isSignificant]
      rw [List.any_cons, List.any_cons, hsig hj.plain.1, hsig hj.plain.2.2, Bool.true_or,
        Bool.true_or]

theorem Layout.Alike.firstStatementFrom?_isSome {case : KeywordCase} {b : Bool}
    {ts qs : List Token} (h : Alike case b ts qs) (depth : Nat) :
    (firstStatementFrom? depth qs).isSome = (firstStatementFrom? depth ts).isSome := by
  induction h generalizing depth with
  | nil => rfl
  | twin ht hrest ih =>
      simp only [firstStatementFrom?, ht.isPunct, ht.depthAfter, hrest.any_isSignificant]
      split
      · rfl
      · rw [Option.isSome_map, Option.isSome_map, ih]
  | joined hj _ ih =>
      obtain ⟨hp, hu, hq⟩ := hj.plain
      simp only [firstStatementFrom?, hp.isPunct, hu.isPunct, hq.isPunct, hp.depthAfter,
        hu.depthAfter, hq.depthAfter, Bool.and_false, Bool.false_eq_true, if_false,
        Option.isSome_map, ih]

theorem firstStatementFrom?_isSome {depth : Nat} {ts us : List Token}
    (h : openAfter depth ts = none) (hus : us.any Token.isSignificant = true) :
    (firstStatementFrom? depth (ts ++ us)).isSome = true := by
  induction ts generalizing depth with
  | nil => simp [openAfter] at h
  | cons t ts ih =>
      rw [openAfter] at h
      rw [List.cons_append, firstStatementFrom?]
      split at h
      next hend =>
        rw [if_pos hend, List.any_append, hus, Bool.or_true]
        rfl
      next hend => rw [if_neg hend, Option.isSome_map, ih h]

theorem firstStatementFrom?_append {depth d : Nat} {ts : List Token}
    (h : openAfter depth ts = some d) (us : List Token) :
    firstStatementFrom? depth (ts ++ us) = (firstStatementFrom? d us).map (· + ts.length) := by
  induction ts generalizing depth with
  | nil =>
      obtain rfl : depth = d := by simpa [openAfter] using h
      simp
  | cons t ts ih =>
      rw [openAfter] at h
      split at h
      · simp at h
      next hend =>
        rw [List.cons_append, firstStatementFrom?, if_neg hend, ih h, Option.map_map]
        rfl

theorem firstStatementFrom?_eq_some {depth n : Nat} {ts : List Token}
    (h : firstStatementFrom? depth ts = some n) :
    ∃ before last after, ts = before ++ last :: after ∧ n = before.length + 1 ∧
      openAfter depth before = some 0 ∧ last.isPunct ';' = true ∧
      after.any Token.isSignificant = true := by
  induction ts generalizing depth n with
  | nil => simp [firstStatementFrom?] at h
  | cons t ts ih =>
      rw [firstStatementFrom?] at h
      split at h
      next hend =>
        obtain ⟨hdepth, hlast⟩ := Bool.and_eq_true_iff.1 hend
        obtain ⟨hafter, rfl⟩ : ts.any Token.isSignificant = true ∧ 1 = n := by simpa using h
        exact ⟨[], t, ts, rfl, rfl, congrArg some (of_decide_eq_true hdepth), hlast, hafter⟩
      next hend =>
        obtain ⟨m, hm, rfl⟩ := Option.map_eq_some_iff.1 h
        obtain ⟨before, last, after, rfl, rfl, hopen, hlast, hafter⟩ := ih hm
        exact ⟨t :: before, last, after, rfl, rfl, by rw [openAfter, if_neg hend, hopen], hlast,
          hafter⟩

end EmbeddedSql
