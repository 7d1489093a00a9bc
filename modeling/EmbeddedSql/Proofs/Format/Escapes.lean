import EmbeddedSql.Proofs.Format.Enclosing
import EmbeddedSql.Proofs.Layout.Comments
import EmbeddedSql.Proofs.Token.Escapes

namespace EmbeddedSql

open Text Lexer Layout

/-- No comment up to the end of its line ends between two backslashes of which the first shields the
second. -/
def CommentsPaired (v : Vocabulary) (sql : Text) : Prop :=
  ∀ x ∈ v.tokenize sql, x.isLineComment = true → endsUnpaired x.text = true →
    (sql.dropBytes (x.offset + x.text.bytes)).head? ≠ some backslash

instance (v : Vocabulary) (sql : Text) : Decidable (CommentsPaired v sql) :=
  inferInstanceAs (Decidable (∀ x ∈ v.tokenize sql, _))

section

variable {v : Vocabulary}

theorem isBlank_of_endsUnpaired {sql a u rest : Text} {k : TokenKind}
    (hsql : sql = a ++ (u ++ rest)) (hreads : Reads k u rest) (hk : k ≠ .blank)
    (hpaired : (token v k u a.bytes).isLineComment = true → endsUnpaired u = true →
      (sql.dropBytes (a.bytes + u.bytes)).head? ≠ some backslash)
    (hu : endsUnpaired u = true) : ∀ c ∈ rest.head?, isBlank c = true := by
  by_cases hrest : rest = []
  · simp [hrest]
  · rcases hreads.of_endsUnpaired hk hrest hu with ⟨-, -, hblank⟩ | ⟨rfl, hdash, hblank⟩
    · exact hblank
    · apply hblank
      have hline : (token v .comment u a.bytes).isLineComment = true := by
        simpa [Token.isLineComment, token] using hdash
      have hhead := hpaired hline hu
      rwa [hsql, ← List.append_assoc, ← bytes_append, dropBytes_append] at hhead

theorem escapesUpToBlanks_tokens {sql a t : Text} {before after : List Token}
    (hsql : sql = a ++ t) (htokens : tokensFrom v a.bytes t = before ++ after)
    (hpaired : ∀ x ∈ before, x.isLineComment = true → endsUnpaired x.text = true →
      (sql.dropBytes (x.offset + x.text.bytes)).head? ≠ some backslash) :
    ∃ u rest, t = u ++ rest ∧ after = tokensFrom v (a ++ u).bytes rest ∧
      escapesUpToBlanks t = (before.filter Token.isSignificant).flatMap
        (fun x => escapesUpToBlanks x.text) ++ escapesUpToBlanks rest := by
  induction before generalizing a t with
  | nil => exact ⟨[], t, rfl, by simpa using htokens.symm, by simp⟩
  | cons x before ih =>
      obtain ⟨k, u, rest, rfl, hreads, rfl, hrest⟩ := tokensFrom_eq_cons htokens
      rw [← bytes_append] at hrest
      obtain ⟨hhead, htail⟩ := List.forall_mem_cons.1 hpaired
      obtain ⟨w, rest', hsplit, hafter, hescapes⟩ :=
        ih (by rw [hsql, List.append_assoc]) hrest.symm htail
      refine ⟨u ++ w, rest', by rw [hsplit, List.append_assoc],
        by rw [hafter, List.append_assoc], ?_⟩
      by_cases hk : k = .blank
      · subst hk
        obtain ⟨hunpaired, hnone⟩ := hreads.blankRun.escapesUpToBlanks
        rw [escapesUpToBlanks_append (by simp [hunpaired]), hnone, hescapes,
          List.filter_cons_of_neg (by simp [token_isSignificant, TokenKind.isSignificant])]
        rfl
      · have hsig : (token v k u a.bytes).isSignificant = true := by
          rw [token_isSignificant]
          simpa [TokenKind.isSignificant] using hk
        have hoffset : (token v k u a.bytes).offset = a.bytes := by rw [token_offset k u 0]
        rw [token_text hk, hoffset] at hhead
        rw [escapesUpToBlanks_append (isBlank_of_endsUnpaired hsql hreads hk hhead), hescapes,
          List.filter_cons_of_pos hsig, List.flatMap_cons, token_text hk, List.append_assoc]

theorem escapesUpToBlanks_casedText (case : KeywordCase) {t : Token}
    (ht : t.kind = .keyword → ∀ c ∈ t.text, isIdentifierChar c = true) :
    endsUnpaired (casedText case t) = endsUnpaired t.text ∧
      escapesUpToBlanks (casedText case t) = escapesUpToBlanks t.text := by
  by_cases hkind : t.kind = .keyword
  · have hplain {s : Text} (hs : ∀ c ∈ s, isIdentifierChar c = true) : backslash ∉ s := fun hmem =>
      absurd (hs backslash hmem) (by decide)
    have hcased : ∀ c ∈ case.text t.text, isIdentifierChar c = true := by
      intro c hc
      obtain ⟨d, hd, rfl⟩ := List.mem_map.1 hc
      rw [KeywordCase.isIdentifierChar_char]
      exact ht hkind d hd
    rw [casedText_keyword case hkind]
    obtain ⟨hpaired, hnone⟩ := escapesUpToBlanks_plain (hplain (ht hkind))
    obtain ⟨hpaired', hnone'⟩ := escapesUpToBlanks_plain (hplain hcased)
    exact ⟨hpaired'.trans hpaired.symm, hnone'.trans hnone.symm⟩
  · rw [casedText_other case hkind]
    exact ⟨rfl, rfl⟩

theorem Layout.IsGap.escapesUpToBlanks {g : Text} (h : IsGap g) :
    endsUnpaired g = false ∧ escapesUpToBlanks g = [] :=
  escapesUpToBlanks_plain fun hmem => absurd (h.isAsciiBlank backslash hmem) (by decide)

theorem Layout.Placed.Follows.gap_blank {p e : Placed} (h : p.Follows e)
    (hunary : p.unary = true → isSign p.token = true)
    (hp : p.token.isPunct backslash = true ∨ p.token.isLineComment = true) (tail : Text) :
    ∀ c ∈ (e.gap ++ tail).head?, isBlank c = true := by
  have hgap : e.gap ≠ [] := by
    rcases hp with hp | hp
    · intro hnil
      have hkind : p.token.kind = .punctuation := by simp_all [Token.isPunct]
      have hsign : p.unary = false := Bool.eq_false_iff.2 fun hu => by
        have := (isSign_iff.1 (hunary hu)).1
        simp [hkind] at this
      obtain ⟨parenSpace, hsep⟩ := h.touching hnil
      rw [hsign, separated, if_neg Bool.false_ne_true, if_pos hp] at hsep
      cases hsep
    · intro hnil
      simpa [Placed.breaks, hnil] using h.afterComment hp
  obtain ⟨d, g, hg⟩ := List.exists_cons_of_ne_nil hgap
  intro c hc
  obtain rfl : d = c := by simpa [hg] using hc
  exact isBlank_of_isAsciiBlank (h.isGap.isAsciiBlank d (by simp [hg]))

theorem escapesUpToBlanks_placed (case : KeywordCase) {es : List Placed} {tail : Text}
    (hchain : es.IsChain Placed.Follows) (hgaps : ∀ e ∈ es, IsGap e.gap)
    (hunary : ∀ e ∈ es, e.unary = true → isSign e.token = true)
    (hkeyword : ∀ e ∈ es, e.token.kind = .keyword → ∀ c ∈ e.token.text, isIdentifierChar c = true)
    (hunpaired : es.Pairwise fun e _ => endsUnpaired e.token.text = true →
      e.token.isPunct backslash = true ∨ e.token.isLineComment = true)
    (htail : ∀ e ∈ es.getLast?, endsUnpaired e.token.text = true →
      ∀ c ∈ tail.head?, isBlank c = true) :
    escapesUpToBlanks (es.flatMap (Placed.text case) ++ tail) =
      es.flatMap (fun e => escapesUpToBlanks e.token.text) ++ escapesUpToBlanks tail := by
  induction es with
  | nil => rfl
  | cons e es ih =>
      obtain ⟨hgap, hgaps⟩ := List.forall_mem_cons.1 hgaps
      obtain ⟨hsign, hunary⟩ := List.forall_mem_cons.1 hunary
      obtain ⟨hword, hkeyword⟩ := List.forall_mem_cons.1 hkeyword
      obtain ⟨hends, hunpaired⟩ := List.pairwise_cons.1 hunpaired
      obtain ⟨hplain, hnone⟩ := hgap.escapesUpToBlanks
      obtain ⟨hcased, hsame⟩ := escapesUpToBlanks_casedText case hword
      have hnext : endsUnpaired (casedText case e.token) = true →
          ∀ c ∈ (es.flatMap (Placed.text case) ++ tail).head?, isBlank c = true := by
        intro hslash
        rw [hcased] at hslash
        cases es with
        | nil => exact htail e rfl hslash
        | cons f es =>
            rw [List.flatMap_cons, Placed.text, List.append_assoc, List.append_assoc]
            exact (List.isChain_cons_cons.1 hchain).1.gap_blank hsign
              (hends f List.mem_cons_self hslash) _
      have hlast : ∀ e ∈ es.getLast?, endsUnpaired e.token.text = true →
          ∀ c ∈ tail.head?, isBlank c = true := by
        cases es with
        | nil => simp
        | cons f es => exact htail
      rw [List.flatMap_cons, Placed.text, List.append_assoc, List.append_assoc,
        escapesUpToBlanks_append (by simp [hplain]), hnone, List.nil_append,
        escapesUpToBlanks_append hnext, hsame, ih hchain.tail hgaps hunary hkeyword hunpaired hlast,
        List.flatMap_cons, List.append_assoc]

end

section

variable {v : Vocabulary} (o : LayoutOptions) {sql : Text}

theorem escapesUpToBlanks_laidOut {before after : List Token}
    (htokens : v.tokenize sql = before ++ after) (hpaired : CommentsPaired v sql) :
    ∃ es : List Placed, es.map Placed.token = before.filter Token.isSignificant ∧
      format o before = es.flatMap (Placed.text o.keywordCase) ++
        (if es.any Placed.breaks then ['\n'] else []) ∧
      ∃ u rest, sql = u ++ rest ∧ after = tokensFrom v u.bytes rest ∧
        ∀ tail : Text, (∀ e ∈ es.getLast?, endsUnpaired e.token.text = true →
            ∀ c ∈ tail.head?, isBlank c = true) →
          escapesUpToBlanks tail = escapesUpToBlanks rest →
          escapesUpToBlanks (es.flatMap (Placed.text o.keywordCase) ++ tail) =
            escapesUpToBlanks sql := by
  have hfront : before.filter Token.isSignificant <+:
      (tokensFrom v 0 sql).filter Token.isSignificant := by
    have hall : tokensFrom v 0 sql = before ++ after := htokens
    rw [hall, List.filter_append]
    exact List.prefix_append _ _
  obtain ⟨es, hes, hseq, hformat⟩ := format_placed o before
    fun t ht => ((legible_of_front hfront).begun t ht).text_ne_nil
  have hmem (e : Placed) (he : e ∈ es) : e.token ∈ before.filter Token.isSignificant :=
    hes ▸ List.mem_map_of_mem he
  have hkeyword : ∀ e ∈ es, e.token.kind = .keyword → ∀ c ∈ e.token.text,
      isIdentifierChar c = true := fun e he =>
    forall_isIdentifierChar_of_keyword e.token
      (List.mem_of_mem_filter (hfront.subset (hmem e he)))
  have hunpaired : es.Pairwise fun e _ => endsUnpaired e.token.text = true →
      e.token.isPunct backslash = true ∨ e.token.isLineComment = true := by
    have hsub := hfront.sublist.trans List.filter_sublist
    have hpairs := endsUnpaired_tokensFrom.sublist hsub
    rw [← hes, List.pairwise_map] at hpairs
    exact hpairs.imp_of_mem fun he _ h => h (List.of_mem_filter (hmem _ he))
  have hsql : sql = [] ++ sql := rfl
  obtain ⟨u, rest, hsplit, hafter, hescapes⟩ := escapesUpToBlanks_tokens hsql htokens
    fun x hx => hpaired x (by rw [htokens]; exact List.mem_append_left _ hx)
  refine ⟨es, hes, hformat, u, rest, hsplit, hafter, fun tail htail hrest => ?_⟩
  rw [escapesUpToBlanks_placed o.keywordCase hseq.chain hseq.isGap hseq.isSign_of_unary hkeyword
    hunpaired htail, hescapes, hrest, ← hes, List.flatMap_map]

end

theorem formatText_keeps_escapes (v : Vocabulary) (o : LayoutOptions) (scope : StatementScope)
    (sql : Text) (h : CommentsPaired v sql) :
    escapesUpToBlanks (formatText v o scope sql) = escapesUpToBlanks sql := by
  by_cases hwhole : scope = .first → firstStatementLength? (v.tokenize sql) = none
  · obtain ⟨es, -, hformat, u, rest, -, hafter, hkeeps⟩ :=
      escapesUpToBlanks_laidOut o (List.append_nil _).symm h
    obtain rfl : rest = [] := by
      cases rest with
      | nil => rfl
      | cons c r => simp [tokensFrom_cons] at hafter
    rw [(formatText_whole o hwhole).2, hformat]
    refine hkeeps _ (fun e _ _ c hc => ?_) ?_
    · split at hc
      · obtain rfl := Option.some.inj hc
        rfl
      · cases hc
    · split <;> rfl
  · obtain ⟨rfl, hsome⟩ := Classical.not_imp.1 hwhole
    obtain ⟨n, hn⟩ := Option.ne_none_iff_exists'.1 hsome
    obtain ⟨before, last, rest, hcut⟩ := exists_cut hn
    have htokens : v.tokenize sql = (before ++ [last]) ++ tokensFrom v (last.offset + 1) rest := by
      rw [hcut.tokens]
      simp
    obtain ⟨es, hes, hformat, u, rest', rfl, hafter, hkeeps⟩ :=
      escapesUpToBlanks_laidOut o htokens h
    obtain rfl := hcut.rest_eq hafter
    rw [(formatText_cut o hcut).2, hcut.trimEndWhile_format o hes hformat]
    refine hkeeps rest' (fun e he hends => ?_) rfl
    have hlast : e.token = last := by
      have hmap := congrArg List.getLast? hes
      rw [List.getLast?_map, he, List.filter_append, List.filter_cons_of_pos hcut.isSignificant]
        at hmap
      simpa using hmap
    rw [hlast, text_of_isPunct hcut.semicolon] at hends
    cases hends

theorem formatText_keeps_escapes_comment :
    let sql := "select \\x41, '\\\\', \\\n\\% -- \\\nfrom t\\n".toList
    CommentsPaired {} sql ∧
      escapesUpToBlanks (formatText {} {} .all sql) = escapesUpToBlanks sql ∧
      escapesUpToBlanks sql = ['x', '\\', ' ', '%', ' '] :=
  ⟨by decide +kernel, formatText_keeps_escapes {} {} .all _ (by decide +kernel), by decide +kernel⟩

theorem formatText_unfolds_line :
    let sql := "a \\\nb".toList
    endsUnpaired sql = false ∧ escapes sql = ['\n'] ∧
      formatText {} {} .all sql = "a \\ b".toList ∧
      escapes (formatText {} {} .all sql) = [' '] := by
  decide +kernel

end EmbeddedSql
