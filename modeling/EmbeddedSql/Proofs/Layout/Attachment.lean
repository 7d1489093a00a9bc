import EmbeddedSql.Proofs.Layout.Arrangement
import EmbeddedSql.Proofs.Layout.Comments

namespace EmbeddedSql.Layout

open Text Lexer

def isSubstitution (t : Token) : Bool :=
  t.kind = .literal && (t.text.startsWith [openBrace] || t.text.startsWith ['$', openBrace])

def isNumber (t : Token) : Bool :=
  t.kind = .literal && t.text.head?.any fun c => c.isDigit || c == '.'

def isEscape (t : Token) : Bool :=
  t.kind = .punctuation && t.text.length = 2 && t.text.head? == some backslash

def isWordOrNumber (t : Token) : Bool := t.kind = .identifier || isNumber t

/-- Whether the two are parts of one name if they touch. -/
def joinsName (p t : Token) : Bool :=
  isSubstitution p && (isWordOrNumber t || isSubstitution t) ||
    isSubstitution t && isWordOrNumber p || isEscape p && isWordOrNumber t

section

variable {p t : Token}

theorem joinsName_cases (h : joinsName p t = true) :
    (t.kind = .identifier ∨ t.kind = .literal) ∧
      (p.kind = .identifier ∧ isSubstitution t = true ∨ p.kind = .literal ∨
        p.kind = .punctuation ∧ p.text.length = 2) := by
  simp only [joinsName, isWordOrNumber, isSubstitution, isNumber, isEscape, Bool.or_eq_true,
    Bool.and_eq_true, decide_eq_true_eq] at h ⊢
  grind

theorem isSignificant_of_joinsName (h : joinsName p t = true) :
    p.isSignificant = true ∧ t.isSignificant = true := by
  obtain ⟨ht, hp⟩ := joinsName_cases h
  simp only [Token.isSignificant, TokenKind.isSignificant, decide_eq_true_eq]
  constructor
  · rcases hp with ⟨hp, -⟩ | hp | ⟨hp, -⟩ <;> simp [hp]
  · rcases ht with ht | ht <;> simp [ht]

theorem isQuoted_of_isSubstitution (h : isSubstitution t = true) : isQuoted t = false := by
  have hhead : t.text.head? = some openBrace ∨ t.text.head? = some '$' := by
    simp only [isSubstitution, startsWith, Bool.and_eq_true, Bool.or_eq_true,
      List.isPrefixOf_iff_prefix] at h
    rcases h.2 with ⟨r, hr⟩ | ⟨r, hr⟩ <;> simp [← hr]
  rcases hhead with hhead | hhead
  · rw [isQuoted, hhead]
    exact Bool.and_eq_false_imp.2 fun _ => by decide
  · rw [isQuoted, hhead]
    exact Bool.and_eq_false_imp.2 fun _ => by decide

theorem not_touches_of_joinsName (h : joinsName p t = true) {unary : Bool}
    (hunary : unary = true → isSign p = true) : ¬Touches p unary t := by
  obtain ⟨ht, hp⟩ := joinsName_cases h
  have hpunct (c : Char) : t.isPunct c = false := by
    rcases ht with ht | ht <;> simp [Token.isPunct, ht]
  have hmark (c : Char) : p.isPunct c = false := by
    rcases hp with ⟨hp, -⟩ | hp | ⟨-, hp⟩
    · simp [Token.isPunct, hp]
    · simp [Token.isPunct, hp]
    · refine Bool.eq_false_iff.2 fun hc => ?_
      have htext : p.text = [c] := by simp_all [Token.isPunct]
      simp [htext] at hp
  have hoperator : p.kind ≠ .operator := by
    rcases hp with ⟨hp, -⟩ | hp | ⟨hp, -⟩ <;> simp [hp]
  intro htouches
  cases htouches with
  | sign hu _ => exact hoperator (isSign_iff.1 (hunary hu)).1
  | closing _ _ hc => simp [hpunct] at hc
  | opened _ hc => simp [hmark] at hc
  | casting hc => exact hoperator (isCast_iff.1 hc).1
  | cast _ hc => rcases ht with ht | ht <;> simp [isCast, ht] at hc
  | point hc _ => simp [hpunct] at hc
  | dotted hd hnext =>
      rcases hd with hd | ⟨hkind, -⟩
      · simp [hmark] at hd
      · have hsub : isSubstitution t = true := by simpa [hkind] using hp
        have hliteral : t.kind = .literal := by simp_all [isSubstitution]
        simp [hliteral, isQuoted_of_isSubstitution hsub] at hnext
  | call _ hc _ => simp [hpunct] at hc

end

theorem Placed.Follows.gap_ne_nil {p e : Placed} (h : p.Follows e)
    (hunary : p.unary = true → isSign p.token = true) (hjoins : joinsName p.token e.token = true) :
    e.gap ≠ [] := by
  intro hgap
  obtain ⟨parenSpace, hsep⟩ := h.touching hgap
  exact not_touches_of_joinsName hjoins hunary (touches_of_separated hsep)

theorem exists_pair_placed {es : List Placed} {ts us : List Token} {p t : Token}
    (h : es.map Placed.token = ts ++ p :: t :: us) :
    ∃ before e e' after, es = before ++ e :: e' :: after ∧ before.map Placed.token = ts ∧
      e.token = p ∧ e'.token = t := by
  obtain ⟨before, rest, hes, hbefore, hrest⟩ := List.map_eq_append_iff.1 h
  obtain ⟨e, rest, rfl, he, hrest⟩ := List.map_eq_cons_iff.1 hrest
  obtain ⟨e', after, rfl, he', -⟩ := List.map_eq_cons_iff.1 hrest
  exact ⟨before, e, e', after, hes, hbefore, he, he'⟩

structure Printed (case : KeywordCase) (ts : List Token) (text : Text) (es : List Placed) :
    Prop where
  tokens : es.map Placed.token = ts
  gaps : ∀ e ∈ es, IsGap e.gap
  text : ∃ ending, (ending = [] ∨ ending = ['\n']) ∧
    text = es.flatMap (Placed.text case) ++ ending

theorem Printed.gaps_eq {case : KeywordCase} {ts : List Token} {text : Text}
    {es es' : List Placed} (h : Printed case ts text es) (h' : Printed case ts text es')
    (hts : ∀ t ∈ ts, Begun t) : es'.map Placed.gap = es.map Placed.gap := by
  obtain ⟨ending, -, htext⟩ := h.text
  obtain ⟨ending', -, htext'⟩ := h'.text
  refine (gaps_unique ?_ ?_ ?_ ?_ (htext'.symm.trans htext)).1
  · rw [h.tokens, h'.tokens]
  · exact fun e he => hts e.token (h.tokens ▸ List.mem_map_of_mem he)
  · exact fun e he => (h.gaps e he).isAsciiBlank
  · exact fun e he => (h'.gaps e he).isAsciiBlank

theorem format_splits_names (o : LayoutOptions) (v : Vocabulary) (sql : Text) :
    let ts := (v.tokenize sql).filter Token.isSignificant
    (∃ es, Printed o.keywordCase ts (format o (v.tokenize sql)) es) ∧
    ∀ es, Printed o.keywordCase ts (format o (v.tokenize sql)) es →
      ∀ us p t vs, v.tokenize sql = us ++ p :: t :: vs → joinsName p t = true →
        ∃ before e e' after, es = before ++ e :: e' :: after ∧
          before.map Placed.token = us.filter Token.isSignificant ∧
          e.token = p ∧ e'.token = t ∧ e'.gap ≠ [] := by
  have hbegun : ∀ t ∈ (v.tokenize sql).filter Token.isSignificant, Begun t :=
    (legible_of_front List.prefix_rfl).begun
  obtain ⟨ps, hps, hseq, hformat⟩ := format_placed o (v.tokenize sql) fun t ht =>
    (hbegun t ht).text_ne_nil
  have hprinted : Printed o.keywordCase ((v.tokenize sql).filter Token.isSignificant)
      (format o (v.tokenize sql)) ps :=
    ⟨hps, hseq.isGap, _, by split <;> simp, hformat⟩
  refine ⟨⟨ps, hprinted⟩, fun es hes us p t vs hsplit hjoins => ?_⟩
  have hgaps := hprinted.gaps_eq hes hbegun
  have hfilter : (v.tokenize sql).filter Token.isSignificant =
      us.filter Token.isSignificant ++ p :: t :: vs.filter Token.isSignificant := by
    obtain ⟨hp, ht⟩ := isSignificant_of_joinsName hjoins
    rw [hsplit, List.filter_append, List.filter_cons_of_pos hp, List.filter_cons_of_pos ht]
  obtain ⟨before, e, e', after, rfl, hbefore, he, he'⟩ :=
    exists_pair_placed (hes.tokens.trans hfilter)
  obtain ⟨before', q, q', after', rfl, hbefore', hq, hq'⟩ :=
    exists_pair_placed (hps.trans hfilter)
  have hgap : q'.gap ≠ [] := by
    have hfollows := (List.isChain_append_cons_cons.1 hseq.chain).2.1
    refine hfollows.gap_ne_nil (hseq.isSign_of_unary q (by simp)) ?_
    rw [hq, hq', hjoins]
  have hsame : e'.gap = q'.gap := by
    have hlength : (before.map Placed.gap).length = (before'.map Placed.gap).length := by
      have hmap := congrArg List.length (hbefore.trans hbefore'.symm)
      simpa using hmap
    rw [List.map_append, List.map_append] at hgaps
    have htail := (List.append_inj hgaps hlength).2
    simp only [List.map_cons, List.cons.injEq] at htail
    exact htail.2.1
  exact ⟨before, e, e', after, rfl, hbefore, he, he', hsame ▸ hgap⟩

theorem format_splits_qualified_name :
    let sql := "select * from app.$\x7btable\x7d".toList
    (∃ us p t vs, Vocabulary.tokenize {} sql = us ++ p :: t :: vs ∧ joinsName p t = true) ∧
      format {} (Vocabulary.tokenize {} sql) = "SELECT * FROM app. $\x7btable\x7d".toList := by
  refine ⟨⟨(Vocabulary.tokenize {} "select * from app.$\x7btable\x7d".toList).take 6,
    ⟨.identifier, "app.".toList, 14⟩, ⟨.literal, "$\x7btable\x7d".toList, 18⟩, [], ?_, ?_⟩, ?_⟩
  · decide +kernel
  · decide +kernel
  · decide +kernel

end EmbeddedSql.Layout
