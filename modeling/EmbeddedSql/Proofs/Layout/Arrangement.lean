import EmbeddedSql.Proofs.Layout.Fusion
import EmbeddedSql.Proofs.Layout.Likeness

namespace EmbeddedSql.Layout

open Text Lexer Relation

variable {v : Vocabulary} {case : KeywordCase}

theorem Twin.of_cased {t q : Token} (hkind : q.kind = t.kind) (htext : q.text = casedText case t) :
    Twin case t q := by
  by_cases ht : t.kind = .keyword
  · rw [casedText_keyword case ht] at htext
    refine ⟨hkind, by rw [htext, KeywordCase.upper_text], fun h => absurd ht h, ?_⟩
    rw [casedText_keyword case ht, casedText_keyword case (hkind.trans ht), htext,
      KeywordCase.text_text]
  · rw [casedText_other case ht] at htext
    refine ⟨hkind, by rw [htext], fun _ => htext, ?_⟩
    rw [casedText_other case ht, casedText_other case (by rwa [hkind]), htext]

theorem casedText_begun {t : Token} (h : Begun t) (case : KeywordCase) :
    ∃ c r, casedText case t = c :: r ∧ isAsciiBlank c = false := by
  obtain ⟨c, r, htext⟩ := List.exists_cons_of_ne_nil h.text_ne_nil
  have hc := h.solid c (by simp [htext])
  by_cases ht : t.kind = .keyword
  · refine ⟨case.char c, case.text r, ?_, ?_⟩
    · rw [casedText_keyword case ht, htext]
      rfl
    · rw [KeywordCase.isAsciiBlank_char, hc]
  · exact ⟨c, r, by rw [casedText_other case ht, htext], hc⟩

theorem twins_of_contents {ts fs : List Token}
    (h : contents ts = fs.map fun t => (t.kind, casedText case t)) :
    List.Forall₂ (Twin case) fs (ts.filter Token.isSignificant) := by
  unfold contents at h
  generalize ts.filter Token.isSignificant = qs at h
  induction fs generalizing qs with
  | nil =>
      obtain rfl : qs = [] := by simpa using h
      exact .nil
  | cons f fs ih =>
      cases qs with
      | nil => simp at h
      | cons q qs =>
          obtain ⟨hfirst, hrest⟩ := List.cons.inj h
          obtain ⟨hkind, htext⟩ := Prod.mk.inj hfirst
          exact .cons (.of_cased hkind htext) (ih qs hrest)

theorem casedTexts_of_twins {ts qs : List Token} (h : List.Forall₂ (Twin case) ts qs) :
    qs.map (casedText case) = ts.map (casedText case) := by
  induction h with
  | nil => rfl
  | cons ht _ ih => rw [List.map_cons, List.map_cons, ht.cased, ih]

theorem alike_of_twins {ts qs : List Token} (h : List.Forall₂ (Twin case) ts qs) (b : Bool) :
    Alike case b ts qs := by
  have halike := Alike.append_twins (b := b) h .nil
  rwa [List.append_nil, List.append_nil] at halike

theorem Alike.isSignificant {b : Bool} {ts qs : List Token} (h : Alike case b ts qs)
    (hts : ∀ t ∈ ts, t.isSignificant = true) : ∀ q ∈ qs, q.isSignificant = true := by
  induction h with
  | nil => simp
  | twin ht _ ih =>
      rw [List.forall_mem_cons] at hts ⊢
      refine ⟨?_, ih hts.2⟩
      rw [Token.isSignificant, ht.kind]
      exact hts.1
  | joined hj _ ih =>
      rw [List.forall_mem_cons, List.forall_mem_cons] at hts
      rw [List.forall_mem_cons]
      refine ⟨?_, ih hts.2.2⟩
      rw [Token.isSignificant, hj.likeNext.kind]
      exact hts.1

theorem format_fused (o : LayoutOptions) {ts fs : List Token} (h : Fused none ts fs)
    (hts : ∀ t ∈ ts, t.isSignificant = true) : format o fs = format o ts := by
  have hsteps : ∀ {us}, ReflTransGen (Alike o.keywordCase true) ts us →
      (∀ u ∈ us, u.isSignificant = true) ∧ format o us = format o ts := by
    intro us hus
    induction hus with
    | refl => exact ⟨hts, rfl⟩
    | tail _ hstep ih =>
        have hsig := hstep.isSignificant ih.1
        refine ⟨hsig, (format_congr o ?_).trans ih.2⟩
        rwa [List.filter_eq_self.2 ih.1, List.filter_eq_self.2 hsig]
  exact (hsteps (h.alike o.keywordCase)).2

theorem format_filter (o : LayoutOptions) (ts : List Token) :
    format o (ts.filter Token.isSignificant) = format o ts := by
  rw [format, format, List.filter_filter]
  simp

theorem anyMerges_left {previous : Option Token} {ts us : List Token}
    (h : anyMerges previous (ts ++ us) = false) : anyMerges previous ts = false := by
  induction ts generalizing previous with
  | nil => rfl
  | cons t ts ih =>
      cases ts with
      | nil => rfl
      | cons x ts =>
          obtain ⟨hfirst, hrest⟩ := Bool.or_eq_false_iff.1 h
          exact Bool.or_eq_false_iff.2 ⟨hfirst, ih hrest⟩

structure Arranged (o : LayoutOptions) (ts fs : List Token) (es : List Placed) : Prop where
  fused : Fused none (ts.filter Token.isSignificant) fs
  tokens : es.map Placed.token = fs
  sequence : Sequence es
  text : format o ts = es.flatMap (Placed.text o.keywordCase) ++
    if es.any Placed.breaks then ['\n'] else []

theorem exists_arranged (o : LayoutOptions) {ts : List Token}
    (hbegun : ∀ t ∈ ts.filter Token.isSignificant, Begun t)
    (hcolon : (ts.filter Token.isSignificant).IsChain fun p t =>
      p.isPunct ':' = true → isCast t = false) :
    ∃ fs es, Arranged o ts fs es := by
  have htexts : ∀ t ∈ ts.filter Token.isSignificant, t.text ≠ [] := fun t ht =>
    (hbegun t ht).text_ne_nil
  have hsig : ∀ t ∈ ts.filter Token.isSignificant, t.isSignificant = true := fun t ht =>
    List.of_mem_filter ht
  obtain ⟨fs, hfused⟩ := Fused.exists_fused none htexts hcolon
  have hfs := List.filter_eq_self.2 (hfused.isSignificant hsig)
  obtain ⟨es, hes, hseq, htext⟩ := format_placed o fs fun t ht =>
    hfused.text_ne_nil htexts t (hfs ▸ ht)
  refine ⟨fs, es, hfused, hes.trans hfs, hseq, ?_⟩
  rw [← htext, format_fused o hfused hsig, format_filter]

theorem gap_ne_nil_of_arrow {p e : Placed} (h : p.Follows e) (hunary : p.unary = false) {m : Nat}
    (hp : p.token = ⟨.operator, ['-', '>'], m⟩) (hkind : e.token.kind = .operator)
    (hhead : e.token.text.head? = some '=') : e.gap ≠ [] := by
  intro hgap
  obtain ⟨parenSpace, hsep⟩ := h.touching hgap
  have hpunct (c : Char) : p.token.isPunct c = false := by simp [hp, Token.isPunct]
  have hpunct' (c : Char) : e.token.isPunct c = false := by simp [hkind, Token.isPunct]
  cases touches_of_separated hsep with
  | sign hu _ => simp [hunary] at hu
  | closing _ _ he => simp [hpunct'] at he
  | opened _ hopened => simp [hpunct] at hopened
  | casting hcast => simp [hp, isCast] at hcast
  | cast _ hcast => simp [(isCast_iff.1 hcast).2] at hhead
  | point hpoint _ => simp [hpunct'] at hpoint
  | dotted hdot _ => simp [hp, Token.isPunct] at hdot
  | call _ hcall _ => simp [hpunct'] at hcall

theorem format_arrow (o : LayoutOptions) {ts us more : List Token} {m : Nat} {w : Token}
    (hts : ∀ t ∈ ts.filter Token.isSignificant, t.text ≠ [])
    (htokens : ts.filter Token.isSignificant = us ++ ⟨.operator, ['-', '>'], m⟩ :: w :: more)
    (hkind : w.kind = .operator) (hhead : w.text.head? = some '=') :
    ∃ (es : List Placed) (gap rest : Text),
      es.map Placed.token = us ++ [⟨.operator, ['-', '>'], m⟩] ∧
      (∀ e ∈ es, IsGap e.gap) ∧ IsGap gap ∧ gap ≠ [] ∧
      format o ts = es.flatMap (Placed.text o.keywordCase) ++ (gap ++ '=' :: rest) := by
  obtain ⟨es, hes, hseq, hformat⟩ := format_placed o ts hts
  obtain ⟨as, es', rfl, has, hes'⟩ := List.map_eq_append_iff.1 (hes.trans htokens)
  obtain ⟨p, es'', rfl, hp, hes''⟩ := List.map_eq_cons_iff.1 hes'
  obtain ⟨e, bs, rfl, rfl, -⟩ := List.map_eq_cons_iff.1 hes''
  have hgaps := hseq.isGap
  have hunary : p.unary = false := by
    have hsign : p.unary = true → isSign p.token = true :=
      hseq.forall_mem (P := fun p => p.unary = true → isSign p.token = true)
        (fun _ _ hu h => isSign_of_isUnary (hu ▸ h))
        (fun _ _ hf h => isSign_of_isUnary (hf.unary ▸ h)) p (by simp)
    rw [Bool.eq_false_iff]
    intro hu
    simp [hp, isSign] at hsign
    simp [hsign] at hu
  have hfollows : p.Follows e :=
    (List.isChain_cons_cons.1 hseq.chain.right_of_append).1
  obtain ⟨r, hr⟩ := List.head?_eq_some_iff.1 hhead
  refine ⟨as ++ [p], e.gap, r ++ (bs.flatMap (Placed.text o.keywordCase) ++
    if (as ++ p :: e :: bs).any Placed.breaks then ['\n'] else []),
    by rw [List.map_append, has, List.map_singleton, hp], fun f hf => ?_, hgaps e (by simp),
    gap_ne_nil_of_arrow hfollows hunary hp hkind hhead, ?_⟩
  · exact hgaps f (by simp at hf ⊢; tauto)
  · have htext : e.text o.keywordCase = e.gap ++ '=' :: r := by
      rw [Placed.text, casedText_other o.keywordCase (by simp [hkind]), hr]
    rw [hformat, List.flatMap_append, List.flatMap_append, List.flatMap_cons, List.flatMap_cons,
      List.flatMap_singleton, htext]
    simp only [List.append_assoc, List.cons_append]

def arrowOf (q : Placed) : Placed := { q with token := ⟨.operator, ['-', '>'], q.token.offset⟩ }

theorem exists_last_placed {es : List Placed} {ts : List Token} {t : Token}
    (h : es.map Placed.token = ts ++ [t]) :
    ∃ es' e, es = es' ++ [e] ∧ es'.map Placed.token = ts ∧ e.token = t := by
  obtain ⟨es', es'', hes, hes', hes''⟩ := List.map_eq_append_iff.1 h
  obtain ⟨e, he, hlast⟩ := List.map_eq_singleton_iff.1 hes''
  exact ⟨es', e, by rw [hes, he], hes', hlast⟩

theorem gaps_unique {es es' : List Placed} {s s' : Text}
    (htexts : (es'.map Placed.token).map (casedText case) =
      (es.map Placed.token).map (casedText case))
    (hbegun : ∀ e ∈ es, Begun e.token)
    (hgaps : ∀ e ∈ es, ∀ c ∈ e.gap, isAsciiBlank c = true)
    (hgaps' : ∀ e ∈ es', ∀ c ∈ e.gap, isAsciiBlank c = true)
    (h : es'.flatMap (Placed.text case) ++ s' = es.flatMap (Placed.text case) ++ s) :
    es'.map Placed.gap = es.map Placed.gap ∧ s' = s := by
  induction es generalizing es' with
  | nil =>
      obtain rfl : es' = [] := by simpa using htexts
      exact ⟨rfl, by simpa using h⟩
  | cons e es ih =>
      cases es' with
      | nil => simp at htexts
      | cons e' es' =>
          rw [List.forall_mem_cons] at hbegun hgaps hgaps'
          obtain ⟨htext, htexts⟩ := List.cons.inj htexts
          have htext : casedText case e'.token = casedText case e.token := htext
          rw [List.flatMap_cons, List.flatMap_cons, List.append_assoc, List.append_assoc,
            Placed.text, Placed.text, htext, List.append_assoc, List.append_assoc] at h
          obtain ⟨c, r, hcased, hc⟩ := casedText_begun hbegun.1 case
          rw [hcased] at h
          have htake (g x : Text) (hg : ∀ c ∈ g, isAsciiBlank c = true) :
              (g ++ (c :: x)).takeWhile isAsciiBlank = g := by
            rw [List.takeWhile_append_of_pos hg, List.takeWhile_cons_of_neg (by simp [hc]),
              List.append_nil]
          have hgap : e'.gap = e.gap := by
            rw [← htake e'.gap _ hgaps'.1, ← htake e.gap _ hgaps.1]
            exact congrArg (List.takeWhile isAsciiBlank) h
          rw [hgap] at h
          have hrest := List.append_cancel_left h
          have hrest : es'.flatMap (Placed.text case) ++ s' = es.flatMap (Placed.text case) ++ s :=
            List.append_cancel_left hrest
          obtain ⟨hgaps, hs⟩ := ih htexts hbegun.2 hgaps.2 hgaps'.2 hrest
          exact ⟨by rw [List.map_cons, List.map_cons, hgap, hgaps], hs⟩

theorem any_breaks_of_extended {es es' : List Placed} {e e' : Placed}
    (htexts : (es'.map Placed.token).map (casedText case) =
      (es.map Placed.token).map (casedText case))
    (hextended : casedText case e'.token = casedText case e.token ++ ['\n'])
    (hbegun : ∀ f ∈ es ++ [e], Begun f.token)
    (hgaps : ∀ f ∈ es ++ [e], ∀ c ∈ f.gap, isAsciiBlank c = true)
    (hgaps' : ∀ f ∈ es' ++ [e'], ∀ c ∈ f.gap, isAsciiBlank c = true)
    (h : ((es' ++ [e']).flatMap (Placed.text case) ++
        if (es' ++ [e']).any Placed.breaks then ['\n'] else []) =
      (es ++ [e]).flatMap (Placed.text case) ++ ['\n']) :
    (es ++ [e]).any Placed.breaks = false := by
  have hbreaks (fs : List Placed) :
      fs.any Placed.breaks = (fs.map Placed.gap).any (·.head? == some '\n') := by
    rw [List.any_map]
    rfl
  have hflat : (es' ++ [e']).flatMap (Placed.text case) =
      (es' ++ [{ e' with token := e.token }]).flatMap (Placed.text case) ++ ['\n'] := by
    rw [List.flatMap_append, List.flatMap_append, List.flatMap_singleton, List.flatMap_singleton,
      Placed.text, Placed.text, hextended, List.append_assoc, List.append_assoc]
  have htexts' : ((es' ++ [{ e' with token := e.token }]).map Placed.token).map (casedText case) =
      ((es ++ [e]).map Placed.token).map (casedText case) := by
    rw [List.map_append, List.map_append, htexts, List.map_append, List.map_append]
    rfl
  have hblank : ∀ f ∈ es' ++ [{ e' with token := e.token }], ∀ c ∈ f.gap,
      isAsciiBlank c = true := by
    intro f hf
    rcases List.mem_append.1 hf with hf | hf
    · exact hgaps' f (List.mem_append_left _ hf)
    · rw [List.mem_singleton.1 hf]
      exact hgaps' e' (by simp)
  rw [hflat, List.append_assoc] at h
  obtain ⟨hsame, htail⟩ := gaps_unique htexts' hbegun hgaps hblank h
  have hgap : (es' ++ [e']).map Placed.gap = (es ++ [e]).map Placed.gap := by
    rw [← hsame, List.map_append, List.map_append]
    rfl
  rw [hbreaks, hgap, ← hbreaks] at htail
  simpa using htail

namespace Arranged

variable {o : LayoutOptions} {ts fs : List Token} {es : List Placed} (h : Arranged o ts fs es)

include h

theorem format_eq {us : List Token}
    (hus : contents us = fs.map fun t => (t.kind, casedText o.keywordCase t)) :
    format o us = format o ts := by
  have hsig : ∀ t ∈ ts.filter Token.isSignificant, t.isSignificant = true := fun t ht =>
    List.of_mem_filter ht
  have htwins := alike_of_twins (twins_of_contents hus) true
  rw [← List.filter_eq_self.2 (h.fused.isSignificant hsig)] at htwins
  rw [format_congr o htwins, format_fused o h.fused hsig, format_filter]

theorem isAsciiBlank_gap : ∀ e ∈ es, ∀ c ∈ e.gap, isAsciiBlank c = true := fun e he =>
  (h.sequence.isGap e he).isAsciiBlank

theorem isChain_left (hts : Legible v (ts.filter Token.isSignificant)) {as bs : List Placed}
    (hes : es = as ++ bs) (has : ∀ e ∈ as.dropLast, isSplitArrow e.token = false) :
    as.IsChain fun p e => ∀ rest,
      ReadsToken v (casedToken o.keywordCase p.token) (e.text o.keywordCase ++ rest) := by
  have hfront : as <+: es := ⟨bs, hes.symm⟩
  have hmerge := h.fused.anyMerges_eq_false
  rw [← h.tokens, hes, List.map_append] at hmerge
  refine isChain_readsToken o.keywordCase (fun e he => ?_) (hes ▸ h.sequence.chain).left_of_append
    (fun e he => ?_) (fun e he => ?_) (anyMerges_left hmerge)
  · refine (h.sequence.first e ?_).2
    rw [hes, List.head?_append, Option.mem_def.1 he]
    rfl
  · have hmem : e.token ∈ fs.dropLast := by
      rw [← h.tokens, ← List.map_dropLast]
      exact List.mem_map_of_mem (mem_dropLast_of_front hfront he)
    exact (h.fused.closed_dropLast hts _ hmem).resolve_right (by simp [has e he])
  · exact h.fused.begun hts.begun _ (h.tokens ▸ List.mem_map_of_mem (hfront.subset he))

theorem tokensFrom_arrow (hts : Legible v (ts.filter Token.isSignificant)) {as bs : List Placed}
    {q : Placed} (hes : es = as ++ q :: bs) (has : ∀ e ∈ as, isSplitArrow e.token = false)
    (hq : isSplitArrow q.token = true) (rest : Text) :
    ∃ us m w more, tokensFrom v 0 (es.flatMap (Placed.text o.keywordCase) ++ rest) =
        us ++ ⟨.operator, ['-', '>'], m⟩ :: w :: more ∧
      contents us = as.map (fun e => (e.token.kind, casedText o.keywordCase e.token)) ∧
      w.kind = .operator ∧ w.text.head? = some '=' := by
  have hsplit : es = (as ++ [q]) ++ bs := by rw [hes, List.append_assoc, List.singleton_append]
  have hchain := h.isChain_left hts hsplit (by simpa using has)
  obtain ⟨hleft, -, hnext⟩ := List.isChain_append.1 hchain
  have hgaps : ∀ e ∈ as, ∀ c ∈ e.gap, isAsciiBlank c = true := fun e he =>
    h.isAsciiBlank_gap e (by simp [hes, he])
  obtain ⟨us, hus, hcontents, -⟩ := tokensFrom_flatMap o.keywordCase hgaps hleft
    (fun e he => hnext e he q rfl (bs.flatMap (Placed.text o.keywordCase) ++ rest)) 0
  obtain ⟨hkind, htext⟩ : q.token.kind = .operator ∧ q.token.text = ['-', '>', '='] := by
    simpa [isSplitArrow] using hq
  have hq' : q.text o.keywordCase = q.gap ++ ['-', '>', '='] := by
    rw [Placed.text, casedText_other o.keywordCase (by simp [hkind]), htext]
  rw [hq', List.append_assoc] at hus
  obtain ⟨blanks, hblanks, hgap⟩ := tokensFrom_blanks (v := v)
    (h.isAsciiBlank_gap q (by simp [hes]))
    (s := '-' :: '>' :: '=' :: (bs.flatMap (Placed.text o.keywordCase) ++ rest)) rfl
    (0 + bytes (as.flatMap (Placed.text o.keywordCase)))
  obtain ⟨w, more, hmore, hw⟩ := tokensFrom_splitArrow (v := v)
    (0 + bytes (as.flatMap (Placed.text o.keywordCase)) + bytes q.gap)
    (bs.flatMap (Placed.text o.keywordCase) ++ rest)
  have htokens := hus.trans (congrArg (us ++ ·) (hgap.trans (congrArg (blanks ++ ·) hmore)))
  have hflat : es.flatMap (Placed.text o.keywordCase) = as.flatMap (Placed.text o.keywordCase) ++
      (q.gap ++ (['-', '>', '='] ++ bs.flatMap (Placed.text o.keywordCase))) := by
    rw [hes, List.flatMap_append, List.flatMap_cons, hq', List.append_assoc]
  refine ⟨us ++ blanks, bytes (as.flatMap (Placed.text o.keywordCase)) + bytes q.gap, w, more, ?_,
    ?_, hw⟩
  · rw [hflat]
    simpa only [List.append_assoc, Nat.zero_add] using htokens
  · rw [contents_append, hcontents, hblanks, List.append_nil]

end Arranged

end EmbeddedSql.Layout
