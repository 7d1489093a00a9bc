import EmbeddedSql.Proofs.Format.Scope
import EmbeddedSql.Proofs.Layout.Arrangement
import EmbeddedSql.Source

namespace EmbeddedSql

open Text Lexer Layout

variable {v : Vocabulary} {o : LayoutOptions} {scope : StatementScope} {sql : Text}

theorem Layout.Fused.openAfter {ts fs : List Token} (h : Fused none ts fs) (depth : Nat) :
    openAfter depth fs = EmbeddedSql.openAfter depth ts :=
  h.eq_of_alike .preserve fun halike => halike.openAfter depth

theorem Layout.Fused.firstStatementFrom?_isSome {ts fs : List Token} (h : Fused none ts fs)
    (depth : Nat) :
    (firstStatementFrom? depth fs).isSome = (firstStatementFrom? depth ts).isSome :=
  h.eq_of_alike .preserve fun halike => halike.firstStatementFrom?_isSome depth

theorem legible_laidOut (v : Vocabulary) (scope : StatementScope) (sql : Text) :
    Legible v ((laidOut scope (v.tokenize sql)).filter Token.isSignificant) :=
  legible_of_front ((laidOut_front scope _).filter _)

/-- The text a pass makes: tokens as they are laid out, and what stands after them. No statement
ends among the tokens before the last if only the first is laid out. -/
structure Pass (v : Vocabulary) (o : LayoutOptions) (scope : StatementScope) (sql : Text)
    (fs : List Token) (es : List Placed) (rest : Text) : Prop where
  arranged : Arranged o (laidOut scope (v.tokenize sql)) fs es
  text : formatText v o scope sql = es.flatMap (Placed.text o.keywordCase) ++ rest
  opens : scope = .first → ∃ depth, openAfter 0 fs.dropLast = some depth

section Passes

variable {fs : List Token} {es : List Placed}

theorem pass_whole (hwhole : scope = .first → firstStatementLength? (v.tokenize sql) = none)
    (harr : Arranged o (laidOut scope (v.tokenize sql)) fs es) :
    Pass v o scope sql fs es (if es.any Placed.breaks then ['\n'] else []) where
  arranged := harr
  text := by
    obtain ⟨hlaid, htext⟩ := formatText_whole o hwhole
    rw [htext, ← harr.text, hlaid]
  opens := by
    intro hscope
    have hsome := harr.fused.firstStatementFrom?_isSome 0
    have hnone : firstStatementFrom? 0 (v.tokenize sql) = none := hwhole hscope
    rw [firstStatementFrom?_isSome_filter, (formatText_whole o hwhole).1, hnone] at hsome
    have hsig := harr.fused.isSignificant fun t ht => List.of_mem_filter ht
    rcases List.eq_nil_or_concat fs with rfl | ⟨init, x, rfl⟩
    · exact ⟨0, rfl⟩
    · rw [List.concat_eq_append] at hsome hsig ⊢
      rw [List.dropLast_concat]
      refine Option.ne_none_iff_exists'.1 fun hend => ?_
      rw [firstStatementFrom?_isSome hend (by simp [hsig x (by simp)])] at hsome
      simp at hsome

theorem pass_cut {before : List Token} {last : Token} {rest : Text}
    (hcut : Cut v sql before last rest)
    (harr : Arranged o (laidOut .first (v.tokenize sql)) fs es) :
    Pass v o .first sql fs es rest ∧ ∃ fs', fs = fs' ++ [last] ∧ openAfter 0 fs' = some 0 := by
  obtain ⟨hlaid, htext⟩ := formatText_cut o hcut
  have hkind := (isPunct_iff.1 hcut.semicolon).1
  have hfused := harr.fused
  rw [hlaid, List.filter_append, List.filter_cons_of_pos hcut.isSignificant,
    List.filter_nil] at hfused
  obtain ⟨fs', hfs, hfused'⟩ := hfused.concat (by simp [IsPlain, hkind])
  have hopens : openAfter 0 fs' = some 0 := by
    rw [hfused'.openAfter, openAfter_filter, hcut.opens]
  refine ⟨⟨harr, ?_, fun _ => ⟨0, by rw [hfs, List.dropLast_concat, hopens]⟩⟩, fs', hfs, hopens⟩
  obtain ⟨es', e, rfl, -, he⟩ := exists_last_placed (harr.tokens.trans hfs)
  have hflat : (es' ++ [e]).flatMap (Placed.text o.keywordCase) =
      (es'.flatMap (Placed.text o.keywordCase) ++ e.gap) ++ [';'] := by
    rw [List.flatMap_append, List.flatMap_singleton, Placed.text,
      casedText_punct o.keywordCase (he ▸ hcut.semicolon), List.append_assoc]
  have htrim : trimEndWhile (· == '\n')
      (if (es' ++ [e]).any Placed.breaks then ['\n'] else []) = [] := by
    split <;> rfl
  rw [htext, ← hlaid, harr.text, hflat, List.append_assoc _ [';'], List.singleton_append,
    trimEndWhile_append_cons (by decide), htrim]

end Passes

theorem openAfter_of_contents {case : KeywordCase} {us ts : List Token}
    (h : contents us = ts.map fun t => (t.kind, casedText case t)) (depth : Nat) :
    openAfter depth us = openAfter depth ts := by
  rw [← openAfter_filter depth us, (alike_of_twins (twins_of_contents h) true).openAfter]

theorem openAfter_plain {t : Token} (h : IsPlain t) (depth : Nat) (ts : List Token) :
    openAfter depth (t :: ts) = openAfter depth ts := by
  rw [openAfter, h.isPunct, h.depthAfter, Bool.and_false, if_neg (by simp)]

namespace Pass

variable {fs : List Token} {es : List Placed} {rest : Text} (h : Pass v o scope sql fs es rest)

include h

theorem second_of_arrow {as bs : List Placed} {q : Placed} (hes : es = as ++ q :: bs)
    (has : ∀ e ∈ as, isSplitArrow e.token = false) (hq : isSplitArrow q.token = true) :
    ∃ (es' : List Placed) (gap u : Text), (es'.map Placed.token).map (casedText o.keywordCase) =
        ((as ++ [arrowOf q]).map Placed.token).map (casedText o.keywordCase) ∧
      (∀ e ∈ es', IsGap e.gap) ∧ IsGap gap ∧ gap ≠ [] ∧
      formatText v o scope (formatText v o scope sql) =
        es'.flatMap (Placed.text o.keywordCase) ++ (gap ++ '=' :: u) := by
  obtain ⟨us, m, w, more, htokens, hcontents, hkind, hhead⟩ :=
    h.arranged.tokensFrom_arrow (legible_laidOut v scope sql) hes has hq rest
  rw [← h.text] at htokens
  have hus : contents us =
      (as.map Placed.token).map fun t => (t.kind, casedText o.keywordCase t) := by
    rw [hcontents, List.map_map]
    rfl
  have hopens : scope = .first →
      ∃ depth, openAfter 0 (us ++ [⟨.operator, ['-', '>'], m⟩, w]) = some depth := by
    intro hscope
    obtain ⟨depth, hdepth⟩ := h.opens hscope
    rw [← h.arranged.tokens, hes, List.map_append, List.map_cons, List.dropLast_append_cons,
      openAfter_append] at hdepth
    obtain ⟨d, hd, -⟩ := Option.bind_eq_some_iff.1 hdepth
    refine ⟨d, ?_⟩
    rw [openAfter_append, openAfter_of_contents hus, hd, Option.bind_some,
      openAfter_plain (.inr rfl), openAfter_plain (.inr hkind)]
    rfl
  obtain ⟨more', hlaid⟩ := laidOut_append hopens more
  have hfilter : (laidOut scope (v.tokenize (formatText v o scope sql))).filter
      Token.isSignificant = us.filter Token.isSignificant ++
        ⟨.operator, ['-', '>'], m⟩ :: w :: more'.filter Token.isSignificant := by
    have hw : w.isSignificant = true := by
      simp [Token.isSignificant, hkind, TokenKind.isSignificant]
    have hall : v.tokenize (formatText v o scope sql) =
        us ++ [⟨.operator, ['-', '>'], m⟩, w] ++ more := by
      rw [List.append_assoc]
      exact htokens
    rw [hall, hlaid, List.filter_append, List.filter_append, List.filter_cons_of_pos rfl,
      List.filter_cons_of_pos hw, List.append_assoc]
    rfl
  obtain ⟨es', gap, rest', hes', hgaps', hgap, hne, hformat⟩ := format_arrow o
    (fun t ht => ((legible_laidOut v scope _).begun t ht).text_ne_nil) hfilter hkind hhead
  rw [← List.append_assoc] at hformat
  obtain ⟨u, hu⟩ := formatText_begins o (by decide) hformat
  refine ⟨es', gap, u, ?_, hgaps', hgap, hne, by rw [hu, List.append_assoc]⟩
  rw [hes', List.map_append, casedTexts_of_twins (twins_of_contents hus), List.map_append,
    List.map_append]
  rfl

theorem second_ne_of_arrow (harrow : fs.any isSplitArrow = true) :
    formatText v o scope (formatText v o scope sql) ≠ formatText v o scope sql := by
  obtain ⟨as, q, bs, hes, has, hq⟩ : ∃ as q bs, es = as ++ q :: bs ∧
      (∀ e ∈ as, isSplitArrow e.token = false) ∧ isSplitArrow q.token = true := by
    rw [← h.arranged.tokens, List.any_map] at harrow
    obtain ⟨q, hfind⟩ := Option.isSome_iff_exists.1
      (List.find?_isSome.2 (List.any_eq_true.1 harrow))
    obtain ⟨hq, as, bs, hes, has⟩ := List.find?_eq_some_iff_append.1 hfind
    exact ⟨as, q, bs, hes, by simpa using has, hq⟩
  obtain ⟨es', gap, u, htexts, hgaps', hgap, hne, hsecond⟩ := h.second_of_arrow hes has hq
  have hbegun : ∀ e ∈ as ++ [arrowOf q], Begun e.token := by
    intro e he
    rcases List.mem_append.1 he with he | he
    · refine h.arranged.fused.begun (legible_laidOut v scope sql).begun _ ?_
      rw [← h.arranged.tokens, hes]
      exact List.mem_map_of_mem (List.mem_append_left _ he)
    · have hclosed : Closed v (arrowOf q).token := .of_operator rfl ⟨_, _, rfl, rfl⟩
      rw [List.mem_singleton.1 he]
      exact hclosed.begun
  have hgaps : ∀ e ∈ as ++ [arrowOf q], ∀ c ∈ e.gap, isAsciiBlank c = true := by
    intro e he
    rcases List.mem_append.1 he with he | he
    · exact h.arranged.isAsciiBlank_gap e (by simp [hes, he])
    · rw [List.mem_singleton.1 he]
      exact h.arranged.isAsciiBlank_gap q (by simp [hes])
  have hfirst : formatText v o scope sql =
      (as ++ [arrowOf q]).flatMap (Placed.text o.keywordCase) ++
        '=' :: (bs.flatMap (Placed.text o.keywordCase) ++ rest) := by
    obtain ⟨hkind, htext⟩ : q.token.kind = .operator ∧ q.token.text = ['-', '>', '='] := by
      simpa [isSplitArrow] using hq
    have hq' : q.text o.keywordCase = (arrowOf q).text o.keywordCase ++ ['='] := by
      rw [Placed.text, casedText_other o.keywordCase (by simp [hkind]), htext]
      exact (List.append_assoc q.gap ['-', '>'] ['=']).symm
    rw [h.text, hes, List.flatMap_append, List.flatMap_cons, hq', List.flatMap_append,
      List.flatMap_singleton]
    simp only [List.append_assoc, List.cons_append, List.nil_append]
  intro heq
  rw [hsecond, hfirst] at heq
  obtain ⟨-, hrest⟩ := gaps_unique htexts hbegun hgaps (fun e he => (hgaps' e he).isAsciiBlank) heq
  obtain ⟨c, g, rfl⟩ := List.exists_cons_of_ne_nil hne
  obtain ⟨rfl, -⟩ := List.cons.inj hrest
  exact absurd (hgap.isAsciiBlank '=' (by simp)) (by decide)

theorem isChain (hno : ∀ f ∈ fs, isSplitArrow f = false) : es.IsChain fun p e => ∀ rest,
    ReadsToken v (casedToken o.keywordCase p.token) (e.text o.keywordCase ++ rest) := by
  refine h.arranged.isChain_left (legible_laidOut v scope sql) (List.append_nil es).symm
    fun e he => ?_
  refine hno e.token ?_
  rw [← h.arranged.tokens]
  exact List.mem_map_of_mem (List.dropLast_subset es he)

theorem second_eq_of_whole (hno : ∀ f ∈ fs, isSplitArrow f = false)
    (hwhole : scope = .first → firstStatementLength? (v.tokenize sql) = none)
    (hrest : ∀ c ∈ rest, isAsciiBlank c = true)
    (hlast : ∀ e ∈ es.getLast?, ReadsToken v (casedToken o.keywordCase e.token) rest) :
    formatText v o scope (formatText v o scope sql) = formatText v o scope sql := by
  have hcontents : contents (v.tokenize (formatText v o scope sql)) =
      fs.map fun t => (t.kind, casedText o.keywordCase t) := by
    rw [h.text, ← h.arranged.tokens, List.map_map]
    exact contents_flatMap o.keywordCase h.arranged.isAsciiBlank_gap hrest (h.isChain hno) hlast 0
  obtain ⟨hlaid, htext⟩ := formatText_whole o hwhole
  have hwhole' : scope = .first →
      firstStatementLength? (v.tokenize (formatText v o scope sql)) = none := by
    intro hscope
    have hfused := h.arranged.fused.firstStatementFrom?_isSome 0
    have htwins := alike_of_twins (twins_of_contents hcontents) true
    rw [firstStatementFrom?_isSome_filter, hlaid, ← htwins.firstStatementFrom?_isSome,
      firstStatementFrom?_isSome_filter] at hfused
    have hnone : firstStatementFrom? 0 (v.tokenize sql) = none := hwhole hscope
    rw [hnone] at hfused
    exact Option.not_isSome_iff_eq_none.1 (by simp [firstStatementLength?, hfused])
  rw [(formatText_whole o hwhole').2, h.arranged.format_eq hcontents, hlaid, htext]

theorem second_eq_of_cut (hscope : scope = .first) (hno : ∀ f ∈ fs, isSplitArrow f = false)
    {before : List Token} {last : Token} (hcut : Cut v sql before last rest)
    {fs' : List Token} (hfs : fs = fs' ++ [last]) (hopens : openAfter 0 fs' = some 0) :
    formatText v o scope (formatText v o scope sql) = formatText v o scope sql := by
  subst hscope
  obtain ⟨hkind, htext⟩ := isPunct_iff.1 hcut.semicolon
  obtain ⟨es₀, e, rfl, hes₀, he⟩ := exists_last_placed (h.arranged.tokens.trans hfs)
  have hreads : ReadsToken v (casedToken o.keywordCase e.token) rest := by
    refine readsToken_mark o.keywordCase (.inl (he ▸ hkind)) ?_
    rw [he, hkind, htext]
    exact .bracket (by decide) rest
  obtain ⟨ts, hts, hcontents, hlast⟩ := tokensFrom_flatMap o.keywordCase
    h.arranged.isAsciiBlank_gap (h.isChain hno) (fun f hf => by
      obtain rfl : e = f := by simpa using hf
      exact hreads) 0
  obtain ⟨us, m, rfl, hm⟩ := hlast e (by simp)
  rw [← h.text, Nat.zero_add] at hts
  rw [he, casedText_punct o.keywordCase hcut.semicolon, hkind] at hts hcontents
  rw [he, casedText_punct o.keywordCase hcut.semicolon, Nat.zero_add] at hm
  have hall : contents (us ++ [⟨.punctuation, [';'], m⟩]) =
      fs.map fun t => (t.kind, casedText o.keywordCase t) := by
    rw [hcontents, ← h.arranged.tokens, List.map_map]
    rfl
  have hus : contents us = fs'.map fun t => (t.kind, casedText o.keywordCase t) := by
    rw [hfs, contents_append, List.map_append] at hall
    exact List.append_inj_left' hall rfl
  have hm : m + 1 = bytes ((es₀ ++ [e]).flatMap (Placed.text o.keywordCase)) := hm
  have hcut' : Cut v (formatText v o .first sql) us ⟨.punctuation, [';'], m⟩ rest := by
    constructor
    case tokens => rw [hm, ← List.singleton_append, ← List.append_assoc]; exact hts
    case opens => rw [openAfter_of_contents hus, hopens]
    case semicolon => rfl
    case more => rw [any_isSignificant_tokensFrom v _ (last.offset + 1)]; exact hcut.more
    case rest => rw [hm, h.text, dropBytes_append]
  obtain ⟨hlaid, hfirst⟩ := formatText_cut o hcut
  rw [(formatText_cut o hcut').2, h.arranged.format_eq hall, hfirst, hlaid]

theorem tokenize_open (hno : ∀ f ∈ fs, isSplitArrow f = false) {fs' : List Token} {t : Token}
    (hfs : fs = fs' ++ [t]) (ht : Open v t) (hrest : rest = ['\n']) :
    ∃ us k, v.tokenize (formatText v o scope sql) = us ++ [⟨t.kind, t.text ++ ['\n'], k⟩] ∧
      contents us = fs'.map fun t => (t.kind, casedText o.keywordCase t) := by
  obtain ⟨es₀, e, rfl, hes₀, rfl⟩ := exists_last_placed (h.arranged.tokens.trans hfs)
  obtain ⟨hleft, -, hnext⟩ := List.isChain_append.1 (h.isChain hno)
  have hplain : casedText o.keywordCase e.token = e.token.text :=
    casedText_other o.keywordCase ht.kind_ne_keyword
  obtain ⟨us, hus, hcontents, -⟩ := tokensFrom_flatMap o.keywordCase
    (fun f hf => h.arranged.isAsciiBlank_gap f (List.mem_append_left _ hf)) hleft
    (fun f hf => hnext f hf e rfl ['\n']) 0
  obtain ⟨blanks, hblanks, hgap⟩ := tokensFrom_blanks (v := v)
    (h.arranged.isAsciiBlank_gap e (by simp)) ht.extended.blankTail_eq_zero
    (0 + bytes (es₀.flatMap (Placed.text o.keywordCase)))
  have hlast := tokensFrom_readsToken ht.extended
    (0 + bytes (es₀.flatMap (Placed.text o.keywordCase)) + bytes e.gap)
  have htext : e.text o.keywordCase ++ ['\n'] = e.gap ++ (e.token.text ++ ['\n'] ++ []) := by
    rw [Placed.text, hplain, List.append_nil, List.append_assoc]
  rw [htext, hgap, hlast, tokensFrom] at hus
  refine ⟨us ++ blanks, 0 + bytes (es₀.flatMap (Placed.text o.keywordCase)) + bytes e.gap, ?_, ?_⟩
  · rw [h.text, hrest, List.flatMap_append, List.flatMap_singleton, List.append_assoc, htext,
      List.append_assoc us]
    exact hus
  · rw [contents_append, hcontents, hblanks, ← hes₀, List.map_map, List.append_nil]
    rfl

theorem second_ne_of_open (hno : ∀ f ∈ fs, isSplitArrow f = false)
    {fs' : List Token} {t : Token} (hfs : fs = fs' ++ [t]) (ht : Open v t) (hrest : rest = ['\n'])
    (hbreaks : es.any Placed.breaks = true) :
    formatText v o scope (formatText v o scope sql) ≠ formatText v o scope sql := by
  obtain ⟨us, k, htokens, hus⟩ := h.tokenize_open hno hfs ht hrest
  have hsig : Token.isSignificant ⟨t.kind, t.text ++ ['\n'], k⟩ = true := ht.extended.isSignificant
  have hwhole : scope = .first →
      firstStatementLength? (v.tokenize (formatText v o scope sql)) = none := by
    intro hscope
    obtain ⟨depth, hdepth⟩ := h.opens hscope
    rw [hfs, List.dropLast_concat, ← openAfter_of_contents hus] at hdepth
    rw [htokens, firstStatementLength?, firstStatementFrom?_append hdepth]
    simp [firstStatementFrom?]
  rw [(formatText_whole o hwhole).2]
  obtain ⟨es', hes', hseq, hformat⟩ := format_placed o (v.tokenize (formatText v o scope sql))
    fun x hx => ((legible_of_front List.prefix_rfl).begun x hx).text_ne_nil
  rw [htokens, List.filter_append, List.filter_cons_of_pos hsig, List.filter_nil] at hes'
  obtain ⟨es₁, e₁, rfl, hes₁, he₁⟩ := exists_last_placed hes'
  obtain ⟨es₀, e, rfl, hes₀, rfl⟩ := exists_last_placed (h.arranged.tokens.trans hfs)
  have htexts : (es₁.map Placed.token).map (casedText o.keywordCase) =
      (es₀.map Placed.token).map (casedText o.keywordCase) := by
    rw [hes₁, hes₀, casedTexts_of_twins (twins_of_contents hus)]
  have hextended : casedText o.keywordCase e₁.token =
      casedText o.keywordCase e.token ++ ['\n'] := by
    rw [he₁, casedText_other o.keywordCase ht.kind_ne_keyword]
    exact casedText_other o.keywordCase ht.kind_ne_keyword
  have hbegun : ∀ f ∈ es₀ ++ [e], Begun f.token := fun f hf =>
    h.arranged.fused.begun (legible_laidOut v scope sql).begun _
      (h.arranged.tokens ▸ List.mem_map_of_mem hf)
  intro heq
  rw [hformat, h.text, hrest] at heq
  rw [any_breaks_of_extended htexts hextended hbegun h.arranged.isAsciiBlank_gap
    (fun f hf => (hseq.isGap f hf).isAsciiBlank) heq] at hbreaks
  simp at hbreaks

end Pass

theorem tokenize_of_closed {t : Token} (h : Closed v t) :
    ∃ ts, v.tokenize (t.text ++ ['\n']) = ⟨t.kind, t.text, 0⟩ :: ts := by
  have hreads := readsToken_lineEnd .preserve h (.inr rfl)
  have hcased : casedToken .preserve t = t := by
    simp [casedToken, casedText]
  rw [hcased] at hreads
  exact ⟨_, tokensFrom_readsToken hreads 0⟩

theorem eq_of_prefix_cons {a : Char} {s : Text} (h : s <+: a :: s) : ∀ c ∈ s, c = a := by
  induction s with
  | nil => simp
  | cons d s ih =>
      obtain ⟨rfl, hrest⟩ := List.cons_prefix_cons.1 h
      rw [List.forall_mem_cons]
      exact ⟨rfl, ih hrest⟩

theorem not_suffix_of_lineEnd {c : Char} {r : Text} (hc : c ≠ '\n') (s : Text) :
    ¬ (c :: r) <:+ s ++ (c :: r) ++ ['\n'] := by
  intro hsuffix
  have hfront := List.reverse_prefix.2 hsuffix
  rw [List.reverse_append, List.reverse_append, List.reverse_singleton,
    List.singleton_append] at hfront
  have hwithin : '\n' :: (c :: r).reverse <+: '\n' :: ((c :: r).reverse ++ s.reverse) :=
    ⟨s.reverse, rfl⟩
  have hself := List.prefix_of_prefix_length_le hfront hwithin (by simp)
  exact hc (eq_of_prefix_cons hself c (by simp))

def shown (v : Vocabulary) (scope : StatementScope) (sql : Text) : List Token :=
  (laidOut scope (v.tokenize sql)).filter Token.isSignificant

def EndsWell (v : Vocabulary) (o : LayoutOptions) (scope : StatementScope) (sql : Text) : Prop :=
  ∀ t ∈ (shown v scope sql).getLast?,
    (∃ ts, v.tokenize (t.text ++ ['\n']) = ⟨t.kind, t.text, 0⟩ :: ts) ∨
      t.text <:+ format o (laidOut scope (v.tokenize sql))

theorem second_eq_iff_of_whole {fs : List Token} {es : List Placed}
    (hwhole : scope = .first → firstStatementLength? (v.tokenize sql) = none)
    (harr : Arranged o (laidOut scope (v.tokenize sql)) fs es)
    (hno : ∀ f ∈ fs, isSplitArrow f = false) :
    formatText v o scope (formatText v o scope sql) = formatText v o scope sql ↔
      EndsWell v o scope sql := by
  have hpass := pass_whole hwhole harr
  rcases harr.fused.ending (legible_laidOut v scope sql) with
    ⟨hclosed, hfs⟩ | ⟨fs', t, hfs, hlast, hopen, -⟩
  · refine iff_of_true ?_ fun t ht =>
      .inl (tokenize_of_closed (hclosed t (List.mem_of_getLast? ht)))
    refine hpass.second_eq_of_whole hno hwhole ?_ fun e he => ?_
    · split <;> simp [isAsciiBlank]
    · have hmem : e.token ∈ fs := harr.tokens ▸ List.mem_map_of_mem (List.mem_of_getLast? he)
      refine readsToken_lineEnd o.keywordCase ((hfs _ hmem).resolve_right (by simp [hno _ hmem])) ?_
      split <;> simp
  · obtain ⟨es₀, e, rfl, hes₀, rfl⟩ := exists_last_placed (harr.tokens.trans hfs)
    have hplain : casedText o.keywordCase e.token = e.token.text :=
      casedText_other o.keywordCase hopen.kind_ne_keyword
    have htext := harr.text
    rw [List.flatMap_append, List.flatMap_singleton, Placed.text, hplain,
      ← List.append_assoc] at htext
    by_cases hbreaks : (es₀ ++ [e]).any Placed.breaks = true
    · refine iff_of_false (hpass.second_ne_of_open hno hfs hopen (if_pos hbreaks) hbreaks) ?_
      intro hends
      rw [if_pos hbreaks] at htext
      rcases hends _ hlast with ⟨ts, hts⟩ | hsuffix
      · exact hopen.not_tokenize ts hts
      · obtain ⟨c, r, hcons⟩ := List.exists_cons_of_ne_nil hopen.atEnd.begun.text_ne_nil
        have hc : c ≠ '\n' := by
          rintro rfl
          exact absurd (hopen.atEnd.begun.solid '\n' (by simp [hcons])) (by decide)
        rw [htext, hcons] at hsuffix
        exact not_suffix_of_lineEnd hc _ hsuffix
    · rw [if_neg hbreaks] at hpass htext
      refine iff_of_true (hpass.second_eq_of_whole hno hwhole (by simp) fun f hf => ?_) ?_
      · obtain rfl : e = f := by simpa using hf
        rw [casedToken_other o.keywordCase hopen.kind_ne_keyword]
        exact hopen.atEnd
      · intro t ht
        obtain rfl : e.token = t := Option.some.inj (hlast.symm.trans ht)
        rw [htext, List.append_nil]
        exact .inr (List.suffix_append _ _)

theorem endsWell_of_cut {before : List Token} {last : Token} {rest : Text}
    (hcut : Cut v sql before last rest) : EndsWell v o .first sql := by
  obtain ⟨hkind, htext⟩ := isPunct_iff.1 hcut.semicolon
  have hshown : shown v .first sql = before.filter Token.isSignificant ++ [last] := by
    rw [shown, (formatText_cut o hcut).1, List.filter_append,
      List.filter_cons_of_pos hcut.isSignificant, List.filter_nil]
  have hclosed : Closed v last := by
    refine ⟨['\n'], by simp, .of_reads (by simp [hkind]) (by simp [hkind]) ?_⟩
    rw [hkind, htext]
    exact .bracket (by decide) _
  intro t ht
  obtain rfl : last = t := by simpa [hshown] using ht
  exact .inl (tokenize_of_closed hclosed)

theorem second_eq_iff (hcolon : (shown v scope sql).IsChain fun p t =>
      p.isPunct ':' = true → isCast t = false) :
    formatText v o scope (formatText v o scope sql) = formatText v o scope sql ↔
      splitsArrow none (shown v scope sql) = false ∧ EndsWell v o scope sql := by
  have hlegible := legible_laidOut v scope sql
  obtain ⟨fs, es, harr⟩ := exists_arranged o hlegible.begun hcolon
  have harrows : fs.any isSplitArrow = splitsArrow none (shown v scope sql) := by
    refine harr.fused.any_isSplitArrow fun t ht => ?_
    rcases hlegible.ending t ht with ⟨rest, -, hreads⟩ | hopen
    · exact isSplitArrow_of_readsToken hreads
    · exact isSplitArrow_of_readsToken hopen.atEnd
  obtain ⟨rest, hpass, hplain⟩ : ∃ rest, Pass v o scope sql fs es rest ∧
      ((∀ f ∈ fs, isSplitArrow f = false) →
        (formatText v o scope (formatText v o scope sql) = formatText v o scope sql ↔
          EndsWell v o scope sql)) := by
    by_cases hwhole : scope = .first → firstStatementLength? (v.tokenize sql) = none
    · exact ⟨_, pass_whole hwhole harr, second_eq_iff_of_whole hwhole harr⟩
    · obtain ⟨rfl, hsome⟩ := Classical.not_imp.1 hwhole
      obtain ⟨n, hn⟩ := Option.ne_none_iff_exists'.1 hsome
      obtain ⟨before, last, rest, hcut⟩ := exists_cut hn
      obtain ⟨hpass, fs', hfs, hopens⟩ := pass_cut hcut harr
      exact ⟨rest, hpass, fun hno => iff_of_true (hpass.second_eq_of_cut rfl hno hcut hfs hopens)
        (endsWell_of_cut hcut)⟩
  cases harrow : splitsArrow none (shown v scope sql) with
  | true =>
      refine iff_of_false (hpass.second_ne_of_arrow (harrows.trans harrow)) ?_
      simp
  | false =>
      have hno : ∀ f ∈ fs, isSplitArrow f = false := by
        simpa using List.any_eq_false.1 (harrows.trans harrow)
      simpa using hplain hno

theorem formatString_idempotent_iff {s : Settings} {v : Vocabulary} (hv : s.vocabulary = .ok v)
    (sql : Text) (hcolon : (shown v s.scope sql).IsChain fun p t =>
      p.isPunct ':' = true → isCast t = false) :
    ∃ once, formatString s sql = .ok once ∧
      (formatString s once = .ok once ↔
        splitsArrow none (shown v s.scope sql) = false ∧ EndsWell v s.layout s.scope sql) := by
  have hformat (t : Text) : formatString s t = .ok (formatText v s.layout s.scope t) := by
    rw [formatString, hv]
    rfl
  refine ⟨formatText v s.layout s.scope sql, hformat sql, ?_⟩
  rw [hformat, Except.ok.injEq]
  exact second_eq_iff hcolon

theorem formatString_idempotent_iff_open :
    Settings.vocabulary {} = .ok {} ∧
      (shown {} .all "select :a::int, 'b".toList).IsChain
        (fun p t => p.isPunct ':' = true → isCast t = false) ∧
      ∃ once, formatString {} "select :a::int, 'b".toList = .ok once ∧
        formatString {} once = .ok once := by
  have hcolon : (shown {} .all "select :a::int, 'b".toList).IsChain
      fun p t => p.isPunct ':' = true → isCast t = false := by decide +kernel
  obtain ⟨once, honce, hiff⟩ := formatString_idempotent_iff (s := {}) rfl
    "select :a::int, 'b".toList hcolon
  refine ⟨rfl, hcolon, once, honce, hiff.2 ⟨by decide +kernel, fun t ht => .inr ?_⟩⟩
  have hlast : (shown {} .all "select :a::int, 'b".toList).getLast? =
      some ⟨.literal, "'b".toList, 16⟩ := by decide +kernel
  obtain rfl : ⟨.literal, "'b".toList, 16⟩ = t := Option.some.inj (hlast.symm.trans ht)
  decide +kernel

theorem formatString_adds_line :
    ∃ once, formatString {} "select a from t; 'x".toList = .ok once ∧
      formatString {} once = .ok (once ++ ['\n']) := by
  refine ⟨formatText {} {} .all "select a from t; 'x".toList, rfl, congrArg Except.ok ?_⟩
  decide +kernel

end EmbeddedSql
