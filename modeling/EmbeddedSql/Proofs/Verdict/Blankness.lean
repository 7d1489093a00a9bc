import EmbeddedSql.Proofs.Format.Scope
import EmbeddedSql.Proofs.Layout.Placement
import EmbeddedSql.Proofs.Token.Ending
import EmbeddedSql.Proofs.Token.Escapes
import EmbeddedSql.Source

namespace EmbeddedSql

open Text

namespace Lexer

variable {v : Vocabulary} {t : Text}

theorem BlankRun.append {s : Text} (hs : BlankRun s) (ht : BlankRun t) : BlankRun (s ++ t) := by
  induction hs with
  | nil => exact ht
  | blank hc _ ih => exact .blank hc ih
  | escape hc _ ih => exact .escape hc ih

theorem BlankRun.blankTail_eq (h : BlankRun t) : blankTail t = t.length := by
  induction h with
  | nil => rfl
  | @blank c r hc _ ih =>
      cases r with
      | nil => rw [blankTail, if_pos hc]; rfl
      | cons d r => rw [blankTail, if_pos hc, ih, List.length_cons (a := c), Nat.add_comm]
  | @escape c r hc _ ih =>
      rw [blankTail, if_neg (by decide), if_pos (by simp [hc]), ih]
      simp only [List.length_cons]
      omega

theorem BlankRun.isSignificant (h : BlankRun t) (n : Nat) :
    ∀ x ∈ tokensFrom v n t, x.isSignificant = false := by
  cases h with
  | nil => simp [tokensFrom]
  | @blank c r hc hr =>
      have hlexeme : lexeme c r = (.blank, r.length) := by
        rw [lexeme, if_pos hc, hr.blankTail_eq]
      rw [tokensFrom_cons, hlexeme, List.drop_length, tokensFrom]
      simp [token_isSignificant, TokenKind.isSignificant]
  | @escape c r hc hr =>
      have hlexeme : lexeme backslash (c :: r) = (.blank, (c :: r).length) := by
        rw [lexeme, if_neg (by decide), if_pos (beq_self_eq_true _), afterBackslash, if_pos hc,
          hr.blankTail_eq, List.length_cons, Nat.add_comm]
      rw [tokensFrom_cons, hlexeme, List.drop_length, tokensFrom]
      simp [token_isSignificant, TokenKind.isSignificant]

theorem blankRun_of_tokensFrom {n : Nat} (h : ∀ x ∈ tokensFrom v n t, x.isSignificant = false) :
    BlankRun t := by
  induction htokens : tokensFrom v n t generalizing n t with
  | nil =>
      cases t with
      | nil => exact .nil
      | cons c r => simp [tokensFrom_cons] at htokens
  | cons x ts ih =>
      obtain ⟨k, u, rest, rfl, hreads, rfl, rfl⟩ := tokensFrom_eq_cons htokens
      rw [htokens, List.forall_mem_cons, token_isSignificant] at h
      obtain rfl : k = .blank := by simpa [TokenKind.isSignificant] using h.1
      exact hreads.blankRun.append (ih h.2 rfl)

theorem tokenize_blank_iff :
    (∀ x ∈ v.tokenize t, x.isSignificant = false) ↔ BlankRun t :=
  ⟨blankRun_of_tokensFrom, fun h => h.isSignificant 0⟩

theorem BlankRun.isAllBlank_iff (h : BlankRun t) : t.isAllBlank = true ↔ backslash ∉ t := by
  have hslash : isBlank backslash = false := rfl
  induction h with
  | nil => simp [isAllBlank]
  | @blank c r hc _ ih =>
      have hne : backslash ≠ c := by
        rintro rfl
        cases hc
      rw [isAllBlank] at ih
      simp [isAllBlank, isBlank_of_isAsciiBlank hc, hne, ih]
  | escape => simp [isAllBlank, hslash]

end Lexer

open Lexer

namespace Layout

theorem format_eq_nil_iff (o : LayoutOptions) {ts : List Token}
    (hts : ∀ t ∈ ts.filter Token.isSignificant, t.text ≠ []) :
    format o ts = [] ↔ ∀ t ∈ ts, t.isSignificant = false := by
  obtain ⟨es, hes, -, hformat⟩ := format_placed o ts hts
  have hnil : (∀ t ∈ ts, t.isSignificant = false) ↔ es = [] := by
    rw [← List.map_eq_nil_iff (f := Placed.token), hes, List.filter_eq_nil_iff]
    simp
  rw [hformat, hnil]
  cases es with
  | nil => simp
  | cons e es =>
      have htext : casedText o.keywordCase e.token ≠ [] := by
        rw [Ne, casedText_eq_nil]
        exact hts e.token (hes ▸ List.mem_cons_self)
      simp [Placed.text, htext]

end Layout

section

variable (v : Vocabulary) (s : Settings) (o : Occurrence)

theorem formatText_eq_nil_iff (l : LayoutOptions) (scope : StatementScope) (sql : Text) :
    formatText v l scope sql = [] ↔ ∀ t ∈ v.tokenize sql, t.isSignificant = false := by
  by_cases hwhole : scope = .first → firstStatementLength? (v.tokenize sql) = none
  · rw [(formatText_whole l hwhole).2]
    exact Layout.format_eq_nil_iff l fun t ht =>
      ((legible_of_front List.prefix_rfl).begun t ht).text_ne_nil
  · -- a statement that is cut off stands before more text, and neither side holds
    obtain ⟨rfl, hsome⟩ := Classical.not_imp.1 hwhole
    obtain ⟨n, hn⟩ := Option.ne_none_iff_exists'.1 hsome
    obtain ⟨before, last, rest, hcut⟩ := exists_cut hn
    have hrest : rest ≠ [] := by
      rintro rfl
      have hmore := hcut.more
      simp [tokensFrom] at hmore
    have hlast : last ∈ v.tokenize sql := by simp [hcut.tokens]
    rw [(formatText_cut l hcut).2]
    constructor
    · intro hnil
      exact absurd (List.append_eq_nil_iff.1 hnil).2 hrest
    · intro hblank
      have hno := hblank last hlast
      rw [hcut.isSignificant] at hno
      cases hno

theorem contentSignal?_of_blank (words : SignalWords) {ts : List Token}
    (h : ∀ t ∈ ts, t.isSignificant = false) : Verdict.contentSignal? words ts = none := by
  have hfilter : (ts.filter fun t => t.kind ≠ .blank && t.kind ≠ .comment) = [] := by
    rw [List.filter_eq_nil_iff]
    intro t ht
    have hblank : t.kind = .blank := by
      simpa [Token.isSignificant, TokenKind.isSignificant] using h t ht
    simp [hblank]
  rw [Verdict.contentSignal?, hfilter]

variable {o}

theorem replacement_eq_nil_iff (h : (classify v s.signals o).isSql = true) :
    (revise v s o).replacement = [] ↔ ∀ t ∈ v.tokenize o.text, t.isSignificant = false := by
  rw [← formatText_eq_nil_iff v s.layout s.scope, revise, if_pos h]
  dsimp only
  split
  next hbreak =>
    have hmem : List.contains (formatText v s.layout s.scope o.text) '\n' = true :=
      (Bool.and_eq_true_iff.1 hbreak).2
    constructor
    · nofun
    · intro hnil
      rw [hnil] at hmem
      cases hmem
  · exact Iff.rfl

theorem classify_of_blankRun (words : SignalWords) (h : BlankRun o.text) :
    classify v words o = if backslash ∈ o.text then
      ((o.identifier.bind (Verdict.nameSignal? words.name)).map Verdict.name).getD .none
    else .none := by
  rw [classify, contentSignal?_of_blank words (tokenize_blank_iff.2 h)]
  by_cases hescape : backslash ∈ o.text
  · have hall : ¬o.text.isAllBlank = true := fun hall => h.isAllBlank_iff.1 hall hescape
    rw [if_neg hall, if_pos hescape]
    cases o.identifier.bind (Verdict.nameSignal? words.name) <;> rfl
  · rw [if_pos (h.isAllBlank_iff.2 hescape), if_neg hescape]

theorem revise_blank (v : Vocabulary) (s : Settings) (o : Occurrence) :
    let blank := ∀ t ∈ v.tokenize o.text, t.isSignificant = false
    let signal := o.identifier.bind (Verdict.nameSignal? s.signals.name)
    (blank ↔ BlankRun o.text) ∧
    (blank → ∀ word, backslash ∈ o.text ∧ signal = some word →
      classify v s.signals o = .name word ∧ revise v s o = ⟨o, [], true⟩) ∧
    (blank → backslash ∉ o.text ∨ signal = none →
      classify v s.signals o = .none ∧ revise v s o = .unchanged o) ∧
    ((classify v s.signals o).isSql = true → ((revise v s o).replacement = [] ↔ blank)) := by
  intro blank signal
  refine ⟨tokenize_blank_iff, ?_, ?_, replacement_eq_nil_iff v s⟩
  · rintro hblank word ⟨hescape, hword⟩
    have hname : classify v s.signals o = .name word := by
      rw [classify_of_blankRun v s.signals (tokenize_blank_iff.1 hblank), if_pos hescape]
      exact congrArg (fun found => (Option.map Verdict.name found).getD .none) hword
    have hsql : (classify v s.signals o).isSql = true := by
      rw [hname]
      rfl
    have hempty := (replacement_eq_nil_iff v s hsql).2 hblank
    have htext : o.text ≠ [] := List.ne_nil_of_mem hescape
    refine ⟨hname, ?_⟩
    rw [revise, if_pos hsql] at hempty ⊢
    dsimp only at hempty ⊢
    rw [hempty]
    simp [htext.symm]
  · rintro hblank hplain
    have hnone : classify v s.signals o = .none := by
      rw [classify_of_blankRun v s.signals (tokenize_blank_iff.1 hblank)]
      rcases hplain with hescape | hsignal
      · rw [if_neg hescape]
      · have hsignal : o.identifier.bind (Verdict.nameSignal? s.signals.name) = none := hsignal
        rw [hsignal]
        split <;> rfl
    refine ⟨hnone, ?_⟩
    rw [revise, hnone]
    rfl

theorem revise_blank_escapes :
    let o := Occurrence.detached "\\t \\n".toList (some "userSqlText".toList) .single
    revise {} {} o = ⟨o, [], true⟩ ∧
      revise {} {} { o with identifier := none } = .unchanged { o with identifier := none } ∧
      revise {} {} { o with text := "\t \n".toList } =
        .unchanged { o with text := "\t \n".toList } :=
  ⟨((revise_blank {} {} _).2.1 (by decide +kernel) "Sql".toList (by decide +kernel)).2,
    ((revise_blank {} {} _).2.2.1 (by decide +kernel) (by decide +kernel)).2,
    ((revise_blank {} {} _).2.2.1 (by decide +kernel) (by decide +kernel)).2⟩

theorem revise_empties_blank :
    let o := Occurrence.detached "\\n".toList (some "sql".toList) .double
    (∀ t ∈ Vocabulary.tokenize {} o.text, t.isSignificant = false) ∧
      classify {} {} o = .name "sql".toList ∧ revise {} {} o = ⟨o, [], true⟩ := by
  decide +kernel

end

end EmbeddedSql
