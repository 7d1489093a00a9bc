import EmbeddedSql.Proofs.Clause.Wording
import EmbeddedSql.Proofs.Layout.Placement
import EmbeddedSql.Proofs.Layout.Tracing

namespace EmbeddedSql.Layout

theorem break_mem_casedText (case : KeywordCase) (t : Token) :
    '\n' ∈ casedText case t ↔ '\n' ∈ t.text := by
  by_cases hkind : t.kind = .keyword
  · rw [casedText_keyword case hkind, case.break_mem_text]
  · rw [casedText_other case hkind]

theorem forcesBreak_eq_false {t : Token} :
    t.forcesBreak = false ↔ t.isLineComment = false ∧ '\n' ∉ t.text := by
  simp [Token.forcesBreak]

theorem isLineComment_of_isKeyword {t : Token} (h : t.isKeyword = true) :
    t.isLineComment = false := by
  simp_all [Token.isLineComment, Token.isKeyword]

theorem containsSubquery_append {ts : List Token} (h : ∀ t ∈ ts, t.isPunct '(' = false)
    (us : List Token) : containsSubquery (ts ++ us) = containsSubquery us := by
  induction ts with
  | nil => rfl
  | cons t ts ih =>
      obtain ⟨ht, hts⟩ := List.forall_mem_cons.1 h
      rw [List.cons_append, containsSubquery, ht, Bool.false_and, Bool.false_or, ih hts]

theorem writeRun_eq_pushAll (query : QueryWriter) (depth : Nat) (w : Writer) {ts : List Token}
    (h : containsSubquery ts = false) : writeRun query depth w ts = w.pushAll ts := by
  induction ts generalizing w with
  | nil => rw [writeRun]; rfl
  | cons t r ih =>
      obtain ⟨hopen, hrest⟩ := Bool.or_eq_false_iff.1 h
      rw [writeRun_token query depth w hopen]
      exact ih (w.push t) hrest

namespace Writer

theorem pushAll_append (w : Writer) (ts us : List Token) :
    w.pushAll (ts ++ us) = (w.pushAll ts).pushAll us :=
  List.foldl_append

theorem continuation_pushAll (w : Writer) (ts : List Token) :
    (w.pushAll ts).continuation = w.continuation := by
  induction ts generalizing w with
  | nil => rfl
  | cons t r ih => exact (ih (w.push t)).trans (continuation_push w t)

def done (w : Writer) : List Line := w.finished.filter fun l => !l.isEmpty

theorem lines_of_current {w : Writer} {l : Line} (hl : w.current = some l)
    (hne : l.isEmpty = false) : w.lines = w.done ++ [l] := by
  rw [lines, hl, List.filter_append]
  simp [done, hne]

theorem done_newline {w : Writer} (h : w.inline = false) (depth : Nat) :
    (w.newline depth).done = w.lines := by
  obtain ⟨finished, line, hn, -, -, hfinished⟩ := newline_eq h depth
  rw [← hfinished, hn]
  rfl

theorem done_beginClause {w : Writer} (h : w.inline = false) (depth : Nat) (c : Clause) :
    (w.beginClause depth c).done = w.lines :=
  done_newline h depth

structure Abreast (case : KeywordCase) (done : List Line) (depth : Nat) (w v : Writer) :
    Prop where
  settled : w.pendingBreak = false ∧ v.pendingBreak = false
  done : w.done = done ∧ v.done = []
  last : v.last = w.last
  lastUnary : v.lastUnary = w.lastUnary
  parenSpace : v.parenSpace = w.parenSpace
  current : ∃ l k, w.current = some l ∧ l.isEmpty = false ∧ l.depth = depth ∧
    v.current = some k ∧ k.isEmpty = false ∧ k.text case = l.text case ∧ '\n' ∉ l.text case

namespace Abreast

variable {case : KeywordCase} {done : List Line} {depth : Nat} {w v : Writer} {t : Token}

theorem start (hw : w.AtMargin depth) (hparen : w.parenSpace = false) (hkey : t.isKeyword = true)
    (htext : t.text ≠ []) (hbreak : '\n' ∉ t.text) :
    Abreast case w.done depth (w.push t) (Writer.push { inline := true } t) := by
  have hcomment := isLineComment_of_isKeyword hkey
  have hunary (p : Option Token) : isUnary t p = false := by
    simp_all [isUnary, Token.isKeyword]
  have hnew : Line.isEmpty {} = true := rfl
  have hfresh : Writer.settle { inline := true } = { inline := true } := rfl
  have hline : (w.current.getD {}).text case = [] := Line.text_of_isEmpty hw.empty case
  have hdepth := hw.current
  rw [currentDepth_eq] at hdepth
  constructor
  · simp [push, hw.settle, hfresh, hw.pending, hcomment]
  · simp [Writer.done, push, hw.settle, hfresh]
  · rfl
  · simp [push, hunary]
  · simp [push, hw.settle, hfresh, hparen]
  · refine ⟨(w.current.getD {}).push (.token t), Line.push {} (.token t), ?_, ?_, hdepth, ?_, ?_,
      ?_, ?_⟩
    · simp [push, hw.settle, hw.empty]
    · simp [Piece.isEmpty, htext]
    · simp [push, hfresh, hnew]
    · simp [Piece.isEmpty, htext]
    · rw [Line.push_text, Line.push_text, hline]
      rfl
    · rw [Line.push_text, hline, List.nil_append]
      exact (break_mem_casedText case t).not.2 hbreak

theorem push (h : Abreast case done depth w v) (ht : t.forcesBreak = false) :
    Abreast case done depth (w.push t) (v.push t) := by
  obtain ⟨hcomment, hbreak⟩ := forcesBreak_eq_false.1 ht
  obtain ⟨l, k, hl, hlne, hdepth, hk, hkne, htext, hline⟩ := h.current
  have hw := Writer.settle_of_settled (.inr h.settled.1)
  have hv := Writer.settle_of_settled (.inr h.settled.2)
  constructor
  · simp [Writer.push, hw, hv, h.settled, hcomment]
  · have hdone := h.done
    simpa [Writer.done, Writer.push, hw, hv] using hdone
  · rfl
  · simp [Writer.push, hw, hv, h.last]
  · simp [Writer.push, hw, hv, h.parenSpace]
  · have hspaces : '\n' ∉ Text.spaces 1 := by decide
    have hcased := (break_mem_casedText case t).not.2 hbreak
    simp only [Writer.push, hw, hv, hl, hk, hlne, hkne, h.last, h.lastUnary, h.parenSpace,
      Option.getD_some, Bool.not_false, Bool.and_true]
    cases needsSpace w.last w.lastUnary w.parenSpace t with
    | true =>
        refine ⟨_, _, rfl, ?_, hdepth, rfl, ?_, ?_, ?_⟩
        · simp [hlne]
        · simp [hkne]
        · simp [htext]
        · simp [hline, Piece.text, hspaces, hcased]
    | false =>
        refine ⟨_, _, rfl, ?_, hdepth, rfl, ?_, ?_, ?_⟩
        · simp [hlne]
        · simp [hkne]
        · simp [htext]
        · simp [hline, Piece.text, hcased]

theorem pushAll {ts : List Token} (h : Abreast case done depth w v)
    (hts : ∀ t ∈ ts, t.forcesBreak = false) :
    Abreast case done depth (w.pushAll ts) (v.pushAll ts) := by
  induction ts generalizing w v with
  | nil => exact h
  | cons t r ih =>
      obtain ⟨ht, hr⟩ := List.forall_mem_cons.1 hts
      exact ih (h.push ht) hr

theorem lines_eq {o : LayoutOptions} (h : Abreast o.keywordCase done depth w v) :
    ∃ l, w.lines = done ++ [l] ∧ l.depth = depth ∧
      l.text o.keywordCase = v.finish o ∧ '\n' ∉ l.text o.keywordCase := by
  obtain ⟨l, k, hl, hlne, hdepth, hk, hkne, htext, hline⟩ := h.current
  have hw : w.lines = done ++ [l] := by rw [lines_of_current hl hlne, h.done.1]
  have hv : v.lines = [k] := by rw [lines_of_current hk hkne, h.done.2, List.nil_append]
  refine ⟨l, hw, hdepth, ?_, hline⟩
  rw [finish, hv]
  exact htext.symm

end Abreast

end Writer

def KeptTogether (o : LayoutOptions) (depth : Nat) (c : Clause) : Prop :=
  (c.kind.isList = true ∧ ¬ (c.kind = .groupBy ∧ o.groupBySingleLine = true) ∧
    splitsList o depth c = false) ∨
  (c.kind.isCondition = true ∧ 1 < (splitConditions c.body).length ∧
    splitsConditions o depth c = false)

instance (o : LayoutOptions) (depth : Nat) (c : Clause) : Decidable (KeptTogether o depth c) :=
  inferInstanceAs (Decidable (_ ∨ _))

structure OnOneLine (o : LayoutOptions) (depth : Nat) (c : Clause) (ls : List Line) : Prop where
  uncommented : ∀ t ∈ c.tokens, t.isLineComment = false
  unbroken : ∀ t ∈ c.tokens, '\n' ∉ t.text
  flat : containsSubquery c.tokens = false
  line : ∃ l, ls = [l] ∧ l.depth = depth ∧ l.text o.keywordCase = inlineText o c.tokens ∧
    '\n' ∉ l.text o.keywordCase
  fits : depth * o.indentWidth + (inlineText o c.tokens).length ≤ o.lineLength

namespace KeptTogether

variable {o : LayoutOptions} {depth : Nat} {c : Clause}

theorem kind_ne (h : KeptTogether o depth c) : c.kind ≠ .preamble ∧ c.kind ≠ .insertInto := by
  rcases h with ⟨hlist, -⟩ | ⟨hcondition, -⟩
  · constructor <;> rintro hkind <;> simp [hkind, ClauseKind.isList] at hlist
  · constructor <;> rintro hkind <;> simp [hkind, ClauseKind.isCondition] at hcondition

theorem fits (h : KeptTogether o depth c) :
    needsBreak c.body = false ∧ tooWide o depth c.tokens = false := by
  rcases h with ⟨-, hgroup, hsplit⟩ | ⟨-, hmany, hsplit⟩
  · have hfree : (!(decide (c.kind = .groupBy) && o.groupBySingleLine)) = true := by
      simpa [imp_iff_not_or] using hgroup
    rw [splitsList, hfree, Bool.true_and] at hsplit
    obtain ⟨hbreak, hwide⟩ := Bool.or_eq_false_iff.1 hsplit
    exact ⟨(Bool.or_eq_false_iff.1 hbreak).2, hwide⟩
  · rw [splitsConditions, decide_eq_true hmany, Bool.true_and] at hsplit
    obtain ⟨hbreak, hwide⟩ := Bool.or_eq_false_iff.1 hsplit
    exact ⟨(Bool.or_eq_false_iff.1 hbreak).1, hwide⟩

theorem writeClause_eq (h : KeptTogether o depth c) (query : QueryWriter) (w : Writer) :
    writeClause o query depth w c = (w.beginClause depth c).pushAll c.tokens := by
  obtain ⟨hbreak, -⟩ := h.fits
  have hflat : containsSubquery c.body = false := (Bool.or_eq_false_iff.1 hbreak).2
  have hbody : writeClause o query depth w c =
      writeTokens query (depth + 1) ((w.beginClause depth c).pushAll c.head) c.body := by
    dsimp only [writeClause]
    rcases h with ⟨hlist, -, hsplit⟩ | ⟨hcondition, -, hsplit⟩
    · rw [if_pos hlist, writeList, hsplit]
      rfl
    · have hlist : c.kind.isList = false := by
        cases hkind : c.kind <;> simp_all [ClauseKind.isCondition, ClauseKind.isList]
      rw [hlist, if_neg Bool.false_ne_true, if_pos hcondition, writeConditions, hsplit]
      rfl
  -- the head has left the level at which lines go on as it was
  have hcontinuation : ((w.beginClause depth c).pushAll c.head).setContinuation (depth + 1) =
      (w.beginClause depth c).pushAll c.head := by
    have hlevel : ((w.beginClause depth c).pushAll c.head).continuation = depth + 1 :=
      Writer.continuation_pushAll _ c.head
    rw [← hlevel]
    rfl
  rw [hbody, writeTokens, hcontinuation, writeRun_eq_pushAll query _ _ hflat, Clause.tokens,
    Writer.pushAll_append]

variable {ts : List Token}

theorem forcesBreak (h : KeptTogether o depth c) (hc : c ∈ splitClauses ts) :
    ∀ t ∈ c.tokens, t.forcesBreak = false := by
  obtain ⟨hbreak, -⟩ := h.fits
  obtain ⟨hany, -⟩ := Bool.or_eq_false_iff.1 hbreak
  refine List.forall_mem_append.2 ⟨fun t ht => ?_, fun t ht => ?_⟩
  · have hcomment := isLineComment_of_isKeyword ((splitClauses_keyed ts c hc).1 t ht)
    exact forcesBreak_eq_false.2 ⟨hcomment, splitClauses_unbroken ts c hc t ht⟩
  · exact Bool.eq_false_iff.2 (List.any_eq_false.1 hany t ht)

theorem exists_cons (h : KeptTogether o depth c) (hc : c ∈ splitClauses ts) :
    ∃ t r, c.tokens = t :: r ∧ t.isKeyword = true ∧ t.text ≠ [] := by
  obtain ⟨hkeys, hfirst⟩ := splitClauses_keyed ts c hc
  rcases splitClauses_headed ts c hc with ⟨hkind, -⟩ | ⟨-, hne⟩
  · exact absurd hkind h.kind_ne.1
  · obtain ⟨t, r, hhead⟩ := List.exists_cons_of_ne_nil hne
    refine ⟨t, r ++ c.body, ?_, hkeys t (by simp [hhead]), hfirst t (by simp [hhead])⟩
    rw [Clause.tokens, hhead, List.cons_append]

theorem abreast (h : KeptTogether o depth c) (hc : c ∈ splitClauses ts) {w : Writer}
    (hw : w.inline = false) (case : KeywordCase) :
    Writer.Abreast case (w.beginClause depth c).done depth
      ((w.beginClause depth c).pushAll c.tokens) (Writer.pushAll { inline := true } c.tokens) := by
  have hmargin : (w.beginClause depth c).AtMargin depth :=
    ((Writer.AtMargin.of_newline hw depth).setContinuation (depth + 1)).setParenSpace _
  have hparen : (w.beginClause depth c).parenSpace = false := decide_eq_false h.kind_ne.2
  obtain ⟨t, r, htokens, hkey, htext⟩ := h.exists_cons hc
  have hforces := h.forcesBreak hc
  rw [htokens] at hforces ⊢
  obtain ⟨ht, hr⟩ := List.forall_mem_cons.1 hforces
  have hbreak := (forcesBreak_eq_false.1 ht).2
  exact (Writer.Abreast.start hmargin hparen hkey htext hbreak).pushAll hr

theorem onOneLine (h : KeptTogether o depth c) (hc : c ∈ splitClauses ts) (query : QueryWriter)
    {w : Writer} (hw : w.inline = false) :
    ∃ ls, (writeClause o query depth w c).lines = w.lines ++ ls ∧ OnOneLine o depth c ls := by
  obtain ⟨l, hlines, hdepth, hline, hunbroken⟩ := (h.abreast hc hw o.keywordCase).lines_eq
  have hforces := h.forcesBreak hc
  obtain ⟨hbreak, hwide⟩ := h.fits
  refine ⟨[l], ?_, ?_, ?_, ?_, ⟨l, rfl, hdepth, hline, hunbroken⟩, ?_⟩
  · rw [h.writeClause_eq, hlines, Writer.done_beginClause hw]
  · exact fun t ht => (forcesBreak_eq_false.1 (hforces t ht)).1
  · exact fun t ht => (forcesBreak_eq_false.1 (hforces t ht)).2
  · have hquiet : ∀ t ∈ c.head, t.isPunct '(' = false := fun t ht =>
      isPunct_of_isKeyword ((splitClauses_keyed ts c hc).1 t ht) '('
    rw [Clause.tokens, containsSubquery_append hquiet]
    exact (Bool.or_eq_false_iff.1 hbreak).2
  · exact Nat.le_of_not_lt (of_decide_eq_false hwide)

end KeptTogether

end EmbeddedSql.Layout
