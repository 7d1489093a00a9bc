import EmbeddedSql.Proofs.Clause.Grouping
import EmbeddedSql.Proofs.Format.Enclosing

namespace EmbeddedSql

open Text Lexer Layout

theorem ends_after_iff (depth : Nat) (t : Token) :
    (Token.depthAfter depth t = 0 && t.isPunct ';') = (depth = 0 && t.isPunct ';') := by
  cases hsemicolon : t.isPunct ';' with
  | false => rw [Bool.and_false, Bool.and_false]
  | true => rw [depthAfter_of_isPunct hsemicolon (by decide)]

theorem foldl_depthAfter_of_openAfter {depth d : Nat} {ts : List Token}
    (h : openAfter depth ts = some d) : ts.foldl Token.depthAfter depth = d := by
  induction ts generalizing depth with
  | nil => exact Option.some.inj h
  | cons t ts ih =>
      rw [openAfter] at h
      split at h
      · cases h
      · exact ih h

theorem statementsFrom_append {depth : Nat} {before : List Token} {last : Token}
    (hopens : openAfter depth before = some 0) (hlast : last.isPunct ';' = true)
    (after : List Token) :
    statementsFrom depth (before ++ last :: after) =
      (before ++ [last]) :: statementsFrom 0 after := by
  induction before generalizing depth with
  | nil =>
      obtain rfl : depth = 0 := Option.some.inj hopens
      rw [List.nil_append, statementsFrom, ends_after_iff, hlast,
        depthAfter_of_isPunct hlast (by decide)]
      rfl
  | cons t before ih =>
      rw [openAfter] at hopens
      split at hopens
      · cases hopens
      next hend =>
        rw [List.cons_append, statementsFrom, ends_after_iff, if_neg hend, ih hopens]
        rfl

theorem statementsFrom_ne_nil {depth : Nat} {ts : List Token} (hts : ts ≠ []) :
    statementsFrom depth ts ≠ [] := by
  intro hnil
  have hflatten := statementsFrom_flatten depth ts
  rw [hnil] at hflatten
  exact hts hflatten.symm

theorem length_statementsFrom_le {depth : Nat} {ts : List Token}
    (hts : ∀ t ∈ ts, t.isSignificant = true) (h : firstStatementFrom? depth ts = none) :
    (statementsFrom depth ts).length ≤ 1 := by
  induction ts generalizing depth with
  | nil => exact Nat.zero_le 1
  | cons t ts ih =>
      obtain ⟨-, hrest⟩ := List.forall_mem_cons.1 hts
      rw [firstStatementFrom?] at h
      rw [statementsFrom, ends_after_iff]
      split at h
      next hend =>
        -- Whatever stood behind the semicolon would be significant.
        obtain rfl : ts = [] := by
          cases ts with
          | nil => rfl
          | cons u ts => simp [hrest u (by simp)] at h
        rw [if_pos hend]
        exact Nat.le_refl 1
      next hend =>
        rw [if_neg hend]
        have hone := ih hrest (Option.map_eq_none_iff.1 h)
        cases hs : statementsFrom (Token.depthAfter depth t) ts with
        | nil => exact Nat.le_refl 1
        | cons s ss => rwa [hs] at hone

section

variable {v : Vocabulary} {sql : Text} {before : List Token} {last : Token} {rest : Text}

theorem Cut.statements_eq (h : Cut v sql before last rest) :
    splitStatements ((v.tokenize sql).filter Token.isSignificant) =
      (before ++ [last]).filter Token.isSignificant ::
        splitStatements
          ((tokensFrom v (last.offset + 1) rest).filter Token.isSignificant) := by
  have hopens : openAfter 0 (before.filter Token.isSignificant) = some 0 := by
    rw [openAfter_filter, h.opens]
  rw [h.tokens, List.filter_append, List.filter_cons_of_pos h.isSignificant,
    splitStatements, statementsFrom_append hopens h.semicolon, List.filter_append,
    List.filter_cons_of_pos h.isSignificant, List.filter_nil]
  rfl

theorem Cut.two_le_length (h : Cut v sql before last rest) :
    2 ≤ (splitStatements ((v.tokenize sql).filter Token.isSignificant)).length := by
  have hafter : (tokensFrom v (last.offset + 1) rest).filter Token.isSignificant ≠ [] := by
    obtain ⟨t, ht, hsignificant⟩ := List.any_eq_true.1 h.more
    exact List.ne_nil_of_mem (List.mem_filter.2 ⟨ht, hsignificant⟩)
  have hmore : 0 < (splitStatements
      ((tokensFrom v (last.offset + 1) rest).filter Token.isSignificant)).length :=
    List.length_pos_iff.2 (statementsFrom_ne_nil hafter)
  rw [h.statements_eq, List.length_cons]
  omega

theorem firstStatementLength?_eq_none_iff :
    firstStatementLength? (v.tokenize sql) = none ↔
      (splitStatements ((v.tokenize sql).filter Token.isSignificant)).length < 2 := by
  constructor
  · intro hnone
    have hfilter : firstStatementFrom? 0 ((v.tokenize sql).filter Token.isSignificant) = none := by
      rw [← Option.not_isSome_iff_eq_none, firstStatementFrom?_isSome_filter,
        Option.not_isSome_iff_eq_none]
      exact hnone
    exact Nat.lt_succ_of_le
      (length_statementsFrom_le (fun t ht => (List.mem_filter.1 ht).2) hfilter)
  · intro hfew
    cases hlength : firstStatementLength? (v.tokenize sql) with
    | none => rfl
    | some n =>
        obtain ⟨before, last, rest, hcut⟩ := exists_cut hlength
        exact absurd hcut.two_le_length (Nat.not_le_of_lt hfew)

theorem Cut.format_ends (o : LayoutOptions) (h : Cut v sql before last rest) :
    ((Layout.format o (before ++ [last])).trimEndWhile (· == '\n')).getLast? = some ';' := by
  have hfront : (before ++ [last]).filter Token.isSignificant <+:
      (tokensFrom v 0 sql).filter Token.isSignificant := by
    have htokens : tokensFrom v 0 sql =
        (before ++ [last]) ++ tokensFrom v (last.offset + 1) rest :=
      h.tokens.trans (by simp)
    rw [htokens, List.filter_append _ (tokensFrom v (last.offset + 1) rest)]
    exact List.prefix_append _ _
  obtain ⟨es, hes, -, hformat⟩ := format_placed o (before ++ [last])
    fun t ht => ((legible_of_front hfront).begun t ht).text_ne_nil
  obtain ⟨w, hw⟩ := h.flatMap_placed o hes
  rw [h.trimEndWhile_format o hes hformat, hw, List.getLast?_concat]

theorem Cut.text (h : Cut v sql before last rest) :
    ∃ front, sql = front ++ ';' :: rest ∧ last.offset = front.bytes := by
  obtain ⟨front, rest', hsql, hoffset, -, -⟩ := tokensFrom_eq_append h.isSignificant h.tokens
  have hfront : last.offset + 1 = (front ++ [';']).bytes := by
    rw [hoffset, Nat.zero_add, bytes_append]
    rfl
  rw [text_of_isPunct h.semicolon] at hsql
  obtain rfl : rest' = rest := by rw [← h.rest, hfront, hsql, dropBytes_append]
  exact ⟨front, by rw [hsql, List.append_assoc, List.singleton_append], by omega⟩

end

theorem formatText_first (v : Vocabulary) (o : LayoutOptions) (sql : Text) :
    let tokens := v.tokenize sql
    let statements := splitStatements (tokens.filter Token.isSignificant)
    (2 ≤ statements.length → ∃ before semicolon after front rest h,
      tokens = before ++ semicolon :: after ∧
      semicolon.isPunct ';' = true ∧ before.foldl Token.depthAfter 0 = 0 ∧
      statements.head? = some ((before ++ [semicolon]).filter Token.isSignificant) ∧
      sql = front ++ ';' :: rest ∧ semicolon.offset = front.bytes ∧
      h = (Layout.format o (before ++ [semicolon])).trimEndWhile (· == '\n') ∧
      h.getLast? = some ';' ∧
      formatText v o .first sql = h ++ rest) ∧
    (statements.length < 2 → formatText v o .first sql = formatText v o .all sql) := by
  intro tokens statements
  constructor
  · intro htwo
    have hsome : firstStatementLength? tokens ≠ none := fun hnone =>
      Nat.not_le_of_lt (firstStatementLength?_eq_none_iff.1 hnone) htwo
    obtain ⟨n, hn⟩ := Option.ne_none_iff_exists'.1 hsome
    obtain ⟨before, last, rest, hcut⟩ := exists_cut hn
    obtain ⟨front, hsql, hoffset⟩ := hcut.text
    refine ⟨before, last, _, front, rest, _, hcut.tokens, hcut.semicolon,
      foldl_depthAfter_of_openAfter hcut.opens, ?_, hsql, hoffset, rfl, hcut.format_ends o,
      (formatText_cut o hcut).2⟩
    exact congrArg List.head? hcut.statements_eq
  · intro hfew
    have hnone : firstStatementLength? tokens = none := firstStatementLength?_eq_none_iff.2 hfew
    exact (formatText_whole o fun _ => hnone).2

theorem formatText_first_brackets :
    let sql := ") select (é;ß) ;  -- c\nselect  2".toList
    formatText {} {} .first sql = ") SELECT (é; ß);  -- c\nselect  2".toList ∧
      (∃ front rest h, sql = front ++ ';' :: rest ∧ h.getLast? = some ';' ∧
        formatText {} {} .first sql = h ++ rest) ∧
      formatText {} {} .first "select 1; ".toList = formatText {} {} .all "select 1; ".toList := by
  obtain ⟨-, -, -, front, rest, h, -, -, -, -, hsql, -, -, hends, htext⟩ :=
    (formatText_first {} {} ") select (é;ß) ;  -- c\nselect  2".toList).1 (by decide +kernel)
  exact ⟨by decide +kernel, ⟨front, rest, h, hsql, hends, htext⟩,
    (formatText_first {} {} _).2 (by decide +kernel)⟩

end EmbeddedSql
