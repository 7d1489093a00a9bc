import Mathlib.Data.List.Chain
import EmbeddedSql.Proofs.Layout.Writing

namespace EmbeddedSql.Layout

open Text

theorem spaces_add (m n : Nat) : spaces (m + n) = spaces m ++ spaces n :=
  List.replicate_add ..

def IsGap (g : Text) : Prop := ∃ n, g = spaces n ∨ g = '\n' :: spaces n

structure Placed where
  gap : Text
  token : Token
  unary : Bool

namespace Placed

def text (case : KeywordCase) (e : Placed) : Text := e.gap ++ casedText case e.token

def breaks (e : Placed) : Bool := e.gap.head? == some '\n'

structure Follows (p e : Placed) : Prop where
  isGap : IsGap e.gap
  touching : e.gap = [] → ∃ parenSpace, separated p.token p.unary parenSpace e.token = false
  afterComment : p.token.isLineComment = true → e.breaks = true
  unary : e.unary = isUnary e.token (some p.token)

end Placed

structure Sequence (es : List Placed) : Prop where
  first : ∀ e ∈ es.head?, e.gap = [] ∧ e.unary = isUnary e.token none
  chain : es.IsChain Placed.Follows

theorem Sequence.concat {es : List Placed} (h : Sequence es) (e : Placed)
    (hfirst : es = [] → e.gap = [] ∧ e.unary = isUnary e.token none)
    (hnext : ∀ p ∈ es.getLast?, p.Follows e) : Sequence (es ++ [e]) := by
  constructor
  · cases es with
    | nil => simpa using hfirst rfl
    | cons p es => simpa using h.first
  · exact List.isChain_append.2 ⟨h.chain, by simp, fun p hp q hq => by
      obtain rfl : q = e := by simpa using hq.symm
      exact hnext p hp⟩

theorem Sequence.forall_mem {es : List Placed} {P : Placed → Prop} (h : Sequence es)
    (hfirst : ∀ e : Placed, e.gap = [] → e.unary = isUnary e.token none → P e)
    (hnext : ∀ p e : Placed, p.Follows e → P e) : ∀ e ∈ es, P e := by
  have hhead : ∀ e ∈ es.head?, P e := fun e he => hfirst e (h.first e he).1 (h.first e he).2
  have hchain := h.chain
  clear h
  induction es with
  | nil => simp
  | cons e es ih =>
      intro f hf
      rcases List.mem_cons.1 hf with rfl | hf
      · exact hhead f (by simp)
      · refine ih (fun k hk => ?_) hchain.tail f hf
        obtain ⟨ks, rfl⟩ := List.head?_eq_some_iff.1 hk
        exact hnext e k (List.isChain_cons_cons.1 hchain).1

theorem Sequence.isGap {es : List Placed} (h : Sequence es) : ∀ e ∈ es, IsGap e.gap :=
  h.forall_mem (fun _ hgap _ => ⟨0, .inl hgap⟩) fun _ _ hfollows => hfollows.isGap

theorem casedText_eq_nil {case : KeywordCase} {t : Token} :
    casedText case t = [] ↔ t.text = [] := by
  unfold casedText
  split <;> simp [upper, lower]

namespace Line

@[simp] theorem push_text (case : KeywordCase) (l : Line) (p : Piece) :
    (l.push p).text case = l.text case ++ p.text case := by
  simp [text, push]

@[simp] theorem push_depth (l : Line) (p : Piece) : (l.push p).depth = l.depth := rfl

theorem text_of_isEmpty {l : Line} (h : l.isEmpty = true) (case : KeywordCase) :
    l.text case = [] := by
  refine List.flatMap_eq_nil_iff.2 fun p hp => ?_
  have hempty := List.all_eq_true.1 h p hp
  cases p with
  | spaces n => simp_all [Piece.isEmpty, Piece.text, spaces]
  | token t => simp_all [Piece.isEmpty, Piece.text, casedText_eq_nil]

end Line

def bodyOf (o : LayoutOptions) : List Line → Text
  | [] => []
  | l :: ls => l.text o.keywordCase ++
      ls.flatMap fun l => '\n' :: (spaces (l.depth * o.indentWidth) ++ l.text o.keywordCase)

section

variable (o : LayoutOptions)

theorem bodyOf_concat {ls : List Line} (hls : ls ≠ []) (l : Line) :
    bodyOf o (ls ++ [l]) =
      bodyOf o ls ++ '\n' :: (spaces (l.depth * o.indentWidth) ++ l.text o.keywordCase) := by
  cases ls with
  | nil => exact absurd rfl hls
  | cons k ks => simp [bodyOf]

theorem bodyOf_extend (ls : List Line) {l l' : Line} {s : Text} (hdepth : l'.depth = l.depth)
    (htext : l'.text o.keywordCase = l.text o.keywordCase ++ s) :
    bodyOf o (ls ++ [l']) = bodyOf o (ls ++ [l]) ++ s := by
  cases ls with
  | nil => simp [bodyOf, htext]
  | cons k ks => simp [bodyOf, htext, hdepth]

theorem flatMap_break (f : Line → Text) (ls : List Line) :
    '\n' :: ls.flatMap (fun l => f l ++ ['\n']) = ls.flatMap (fun l => '\n' :: f l) ++ ['\n'] := by
  induction ls with
  | nil => rfl
  | cons l ls ih => simp [← ih]

theorem finish_eq {w : Writer} (hflush : ∀ l ∈ w.lines.head?, l.depth = 0) :
    w.finish o = bodyOf o w.lines ++ if 1 < w.lines.length then ['\n'] else [] := by
  unfold Writer.finish
  split
  next h => simp [h, bodyOf]
  next l h => simp [h, bodyOf]
  next h₀ h₁ =>
    match hl : w.lines with
    | [] => exact absurd hl h₀
    | [l] => exact absurd hl (h₁ l)
    | k :: l :: ls =>
        have hk : k.depth = 0 := hflush k (by simp [hl])
        have hbreak := flatMap_break
          (fun l => spaces (l.depth * o.indentWidth) ++ l.text o.keywordCase) (l :: ls)
        have hlong : 1 < (k :: l :: ls).length := by simp
        rw [List.flatMap_cons, hk, Nat.zero_mul, if_pos hlong]
        calc spaces 0 ++ k.text o.keywordCase ++ ['\n'] ++ (l :: ls).flatMap (fun l =>
              spaces (l.depth * o.indentWidth) ++ l.text o.keywordCase ++ ['\n'])
            = k.text o.keywordCase ++ '\n' :: (l :: ls).flatMap (fun l =>
              spaces (l.depth * o.indentWidth) ++ l.text o.keywordCase ++ ['\n']) := by
              simp [spaces]
          _ = bodyOf o (k :: l :: ls) ++ ['\n'] := by rw [hbreak, ← List.append_assoc]; rfl

end

/-- `es` are the tokens a writer has written so far. -/
structure Fits (o : LayoutOptions) (es : List Placed) (w : Writer) : Prop where
  sequence : Sequence es
  body : bodyOf o w.lines = es.flatMap (Placed.text o.keywordCase)
  count : w.lines.length = es.countP Placed.breaks + if es = [] then 0 else 1
  last : w.last = es.getLast?.map Placed.token
  lastUnary : w.lastUnary = es.getLast?.any Placed.unary
  flush : ∀ l ∈ w.lines.head?, l.depth = 0
  margin : es = [] → w.currentDepth = 0
  pending : w.pendingBreak = true → es ≠ []
  comment : w.inline = false → w.last.any Token.isLineComment = true →
    w.pendingBreak = true ∨ w.current.all Line.isEmpty = true

namespace Fits

variable {o : LayoutOptions} {es : List Placed} {w : Writer}

theorem start (o : LayoutOptions) (inline : Bool) : Fits o [] { inline := inline } where
  sequence := ⟨by simp, .nil⟩
  body := rfl
  count := rfl
  last := rfl
  lastUnary := rfl
  flush := by simp [Writer.lines]
  margin := fun _ => rfl
  pending := by simp
  comment := by simp

theorem last_isSome (h : Fits o es w) : w.last.isSome = true ↔ es ≠ [] := by
  rw [h.last]
  cases es using List.reverseRecOn <;> simp

theorem lines_eq_nil (h : Fits o es w) : w.lines = [] ↔ es = [] := by
  rw [← List.length_eq_zero_iff, h.count]
  split <;> simp_all

theorem newline (h : Fits o es w) {depth : Nat} (hd : depth = 0 ∨ w.last.isSome = true) :
    Fits o es (w.newline depth) := by
  cases hi : w.inline with
  | true => rwa [Writer.newline_inlined hi]
  | false =>
      obtain ⟨finished, line, hw, hempty, hdepth, hlines⟩ := Writer.newline_eq hi depth
      have hl : (w.newline depth).lines = w.lines := by
        rw [hw]
        simpa [Writer.lines, List.filter_append, hempty] using hlines
      constructor
      · exact h.sequence
      · rw [hl]; exact h.body
      · rw [hl]; exact h.count
      · rw [Writer.newline_last]; exact h.last
      · rw [hw]; exact h.lastUnary
      · rw [hl]; exact h.flush
      · intro hes
        have hnone : ¬ w.last.isSome = true := fun hs => (last_isSome h).1 hs hes
        rw [hw]
        simpa [Writer.currentDepth, hdepth] using hd.resolve_right hnone
      · rw [hw]; simp
      · intro _ _
        rw [hw]
        exact .inr (by simpa using hempty)

theorem setContinuation (h : Fits o es w) (depth : Nat) : Fits o es (w.setContinuation depth) :=
  { h with }

theorem setParenSpace (h : Fits o es w) (on : Bool) : Fits o es (w.setParenSpace on) :=
  { h with }

theorem settle (h : Fits o es w) : Fits o es w.settle ∧ (w.inline = false →
    w.last.any Token.isLineComment = true → w.settle.current.all Line.isEmpty = true) := by
  unfold Writer.settle
  split
  next hp =>
    refine ⟨h.newline (.inr ((last_isSome h).2 (h.pending hp))), fun hi _ => ?_⟩
    obtain ⟨_, line, hw, hempty, _⟩ := Writer.newline_eq hi w.continuation
    rw [hw]
    simpa using hempty
  next hp => exact ⟨h, fun hi hc => (h.comment hi hc).resolve_left hp⟩

abbrev written (w : Writer) (line : Line) (t : Token) (pending : Bool) : Writer :=
  { w with
    current := some line
    last := some t
    lastUnary := isUnary t w.last
    pendingBreak := pending }

section

variable {line : Line} {t : Token} {m : Nat} {pending : Bool} (h : Fits o es w)
  (htext : line.text o.keywordCase =
    (w.current.getD {}).text o.keywordCase ++ (spaces m ++ casedText o.keywordCase t))
  (hline : line.isEmpty = false)
  (hpending : w.inline = false → t.isLineComment = true → pending = true)

include h hline htext hpending

theorem write_onto {l : Line} (hl : w.current = some l) (hne : l.isEmpty = false)
    (hdepth : line.depth = (w.current.getD {}).depth)
    (hcomment : w.inline = false → w.last.any Token.isLineComment = true →
      w.current.all Line.isEmpty = true)
    (hinline : w.inline = true → w.last.any Token.isLineComment = false)
    (hspace : m = 0 → ∀ p ∈ w.last, ∃ parenSpace, separated p w.lastUnary parenSpace t = false) :
    Fits o (es ++ [⟨spaces m, t, isUnary t w.last⟩]) (written w line t pending) := by
  have hold : w.lines = (w.finished.filter fun l => !l.isEmpty) ++ [l] := by
    simp [Writer.lines, List.filter_append, hl, hne]
  have hnew : (written w line t pending).lines =
      (w.finished.filter fun l => !l.isEmpty) ++ [line] := by
    simp [Writer.lines, List.filter_append, hline]
  have hes : es ≠ [] := fun hes => by simp [(lines_eq_nil h).2 hes] at hold
  have hbreaks : Placed.breaks ⟨spaces m, t, isUnary t w.last⟩ = false := by
    cases m <;> simp [Placed.breaks, spaces, List.replicate_succ]
  rw [hl, Option.getD_some] at hdepth htext
  constructor
  · refine h.sequence.concat _ (fun hnil => absurd hnil hes) fun p hp => ?_
    have hlast : w.last = some p.token := by rw [h.last, hp]; rfl
    have hunary : w.lastUnary = p.unary := by rw [h.lastUnary, hp]; rfl
    constructor
    · exact ⟨m, .inl rfl⟩
    · intro hg
      have hm : m = 0 := by simpa [spaces] using hg
      simpa [hunary] using hspace hm p.token hlast
    · intro hc
      have hany : w.last.any Token.isLineComment = true := by simp [hlast, hc]
      cases hi : w.inline with
      | true => simp [hinline hi] at hany
      | false => simp [hl, hne] at hcomment; simp_all
    · rw [hlast]
  · rw [hnew, bodyOf_extend o _ hdepth htext, ← hold, h.body]
    simp [Placed.text]
  · rw [hnew, List.countP_append, List.length_append]
    have hcount := h.count
    rw [hold, List.length_append, if_neg hes] at hcount
    simpa [hbreaks] using hcount
  · simp
  · simp
  · rw [hnew]
    have hflush := h.flush
    rw [hold] at hflush
    cases hf : w.finished.filter fun l => !l.isEmpty with
    | nil => simpa [hf, hdepth] using hflush
    | cons k ks => simpa [hf] using hflush
  · simp
  · simp
  · intro hi hc
    exact .inl (hpending hi (by simpa using hc))

theorem write_first (hempty : w.current.all Line.isEmpty = true) (hes : es = []) (hm : m = 0)
    (hdepth : line.depth = (w.current.getD {}).depth) :
    Fits o (es ++ [⟨[], t, isUnary t w.last⟩]) (written w line t pending) := by
  have hcurrent : (w.current.getD {}).isEmpty = true := by
    cases hc : w.current <;> simp_all [Line.isEmpty]
  have hnil : w.finished.filter (fun l => !l.isEmpty) = [] := by
    have := (lines_eq_nil h).2 hes
    simp only [Writer.lines, List.filter_append, List.append_eq_nil_iff] at this
    exact this.1
  have hnew : (written w line t pending).lines = [line] := by
    simp [Writer.lines, List.filter_append, hnil, hline]
  have hlast : w.last = none := by simp [h.last, hes]
  have hline0 : line.depth = 0 := by
    have := h.margin hes
    rw [hdepth]
    cases hc : w.current <;> simp_all [Writer.currentDepth]
  subst hes hm
  constructor
  · exact h.sequence.concat _ (fun _ => ⟨rfl, by rw [hlast]⟩) (by simp)
  · rw [hnew]
    simp [bodyOf, htext, Line.text_of_isEmpty hcurrent, Placed.text, spaces]
  · rw [hnew]; simp [Placed.breaks]
  · simp
  · simp
  · rw [hnew]; simpa using hline0
  · simp
  · simp
  · intro hi hc
    exact .inl (hpending hi (by simpa using hc))

theorem write_below (hempty : w.current.all Line.isEmpty = true) (hes : es ≠ []) :
    Fits o (es ++ [⟨'\n' :: spaces (line.depth * o.indentWidth + m), t, isUnary t w.last⟩])
      (written w line t pending) := by
  have hcurrent : (w.current.getD {}).isEmpty = true := by
    cases hc : w.current <;> simp_all [Line.isEmpty]
  have hold : w.lines = w.finished.filter fun l => !l.isEmpty := by
    cases hc : w.current <;> simp_all [Writer.lines, List.filter_append]
  have hnew : (written w line t pending).lines = w.lines ++ [line] := by
    rw [hold]
    simp [Writer.lines, List.filter_append, hline]
  have hlines : w.lines ≠ [] := fun hnil => hes ((lines_eq_nil h).1 hnil)
  constructor
  · refine h.sequence.concat _ (fun hnil => absurd hnil hes) fun p hp => ?_
    have hlast : w.last = some p.token := by rw [h.last, hp]; rfl
    exact ⟨⟨_, .inr rfl⟩, by simp, fun _ => by simp [Placed.breaks], by rw [hlast]⟩
  · rw [hnew, bodyOf_concat o hlines, h.body]
    simp [htext, Line.text_of_isEmpty hcurrent, Placed.text, spaces_add]
  · rw [hnew, List.countP_append, List.length_append, h.count, if_neg hes]
    simp [Placed.breaks]
  · simp
  · simp
  · rw [hnew]
    cases hl : w.lines with
    | nil => exact absurd hl hlines
    | cons k ks => simpa [hl] using h.flush
  · simp
  · simp
  · intro hi hc
    exact .inl (hpending hi (by simpa using hc))

theorem write (hdepth : line.depth = (w.current.getD {}).depth)
    (hcomment : w.inline = false → w.last.any Token.isLineComment = true →
      w.current.all Line.isEmpty = true)
    (hinline : w.inline = true → w.last.any Token.isLineComment = false)
    (hfirst : es = [] → m = 0)
    (hspace : m = 0 → w.current.all Line.isEmpty = false →
      ∀ p ∈ w.last, ∃ parenSpace, separated p w.lastUnary parenSpace t = false) :
    ∃ g, Fits o (es ++ [⟨g, t, isUnary t w.last⟩]) (written w line t pending) := by
  cases hempty : w.current.all Line.isEmpty with
  | true =>
      by_cases hes : es = []
      · exact ⟨[], write_first h htext hline hpending hempty hes (hfirst hes) hdepth⟩
      · exact ⟨_, write_below h htext hline hpending hempty hes⟩
  | false =>
      obtain ⟨l, hl, hne⟩ : ∃ l, w.current = some l ∧ l.isEmpty = false := by
        cases hc : w.current <;> simp_all
      exact ⟨_, write_onto h htext hline hpending hl hne hdepth hcomment hinline
        fun hm => hspace hm hempty⟩

end

theorem push (h : Fits o es w) {t : Token} (ht : t.text ≠ [])
    (hinline : w.inline = true → w.last.any Token.isLineComment = false) :
    ∃ g, Fits o (es ++ [⟨g, t, isUnary t w.last⟩]) (w.push t) := by
  obtain ⟨hs, hcomment⟩ := h.settle
  have hlast : w.settle.last = w.last := by rw [hs.last, h.last]
  have hnonempty : (Piece.token t).isEmpty = false := by simpa [Piece.isEmpty] using ht
  rw [← Writer.settle_inline, ← hlast] at hcomment hinline
  rw [← hlast]
  unfold Writer.push
  dsimp only
  split
  next hspace =>
    refine write (m := 1) hs ?_ ?_ ?_ ?_ hcomment hinline ?_ ?_
    · simp [Piece.text]
    · simp [hnonempty]
    · simp_all
    · simp
    · intro hes
      simp [hs.last, hes, needsSpace] at hspace
    · simp
  next hspace =>
    refine write (m := 0) hs ?_ ?_ ?_ ?_ hcomment hinline ?_ ?_
    · simp [Piece.text, spaces]
    · simp [hnonempty]
    · simp_all
    · simp
    · simp
    · intro _ hne p hp
      obtain ⟨l, hl, hle⟩ : ∃ l, w.settle.current = some l ∧ l.isEmpty = false := by
        cases hc : w.settle.current <;> simp_all
      refine ⟨w.settle.parenSpace, ?_⟩
      simpa [needsSpace, Option.mem_def.1 hp, hl, hle] using hspace

theorem padded (h : Fits o es w) (hs : w.Settled) (hes : es ≠ []) (n : Nat) {t : Token}
    (ht : t.text ≠ []) (hinline : w.inline = true → w.last.any Token.isLineComment = false) :
    ∃ g, Fits o (es ++ [⟨g, t, isUnary t w.last⟩]) ((w.padTo n).push t) := by
  rcases Writer.padTo_eq w n with hn | ⟨l, k, hl, hk, hn⟩
  · rw [hn]; exact h.push ht hinline
  · have hsettle := Writer.settle_of_settled (Writer.padTo_settled hs n)
    have hcomment : w.inline = false → w.last.any Token.isLineComment = true →
        w.current.all Line.isEmpty = true := by
      intro hi hc
      rcases hs with hi' | hp
      · simp [hi] at hi'
      · exact (h.comment hi hc).resolve_left (by simp [hp])
    have hnonempty : (Piece.token t).isEmpty = false := by simpa [Piece.isEmpty] using ht
    unfold Writer.push
    rw [hsettle, hn]
    dsimp only
    split
    · refine write (m := k + 1) h ?_ ?_ ?_ ?_ hcomment hinline ?_ ?_
      · simp [Piece.text, hl, spaces_add]
      · simp [hnonempty]
      · simp_all
      · simp [hl]
      · exact fun hnil => absurd hnil hes
      · simp
    · refine write (m := k) h ?_ ?_ ?_ ?_ hcomment hinline ?_ ?_
      · simp [Piece.text, hl]
      · simp [hnonempty]
      · simp_all
      · simp [hl]
      · exact fun hnil => absurd hnil hes
      · exact fun hk0 => absurd hk0 (by omega)

theorem last_plain (h : Fits o es w)
    (hplain : ∀ t ∈ es.map Placed.token, t.isLineComment = false) :
    w.last.any Token.isLineComment = false := by
  rw [h.last]
  cases hlast : es.getLast? with
  | none => rfl
  | some e => exact hplain _ (List.mem_map_of_mem (List.mem_of_getLast? hlast))

theorem run (o : LayoutOptions) {inline : Bool} {w : Writer} {ts : List Token}
    (hrun : Writes { inline := inline } ts w) (hts : ∀ t ∈ ts, t.text ≠ [])
    (hplain : inline = true → ∀ t ∈ ts, t.isLineComment = false) :
    ∃ es, es.map Placed.token = ts ∧ Fits o es w := by
  induction hrun with
  | refl => exact ⟨[], rfl, start o inline⟩
  | @push us w t hr ih =>
      obtain ⟨es, rfl, h⟩ := ih (fun u hu => hts u (List.mem_append_left _ hu))
        (fun hi u hu => hplain hi u (List.mem_append_left _ hu))
      obtain ⟨g, hg⟩ := h.push (hts t (by simp)) fun hi =>
        h.last_plain fun u hu => hplain (hr.inline_eq.symm.trans hi) u (List.mem_append_left _ hu)
      exact ⟨_, by simp, hg⟩
  | @padded us w n t hr hl hs ih =>
      obtain ⟨es, rfl, h⟩ := ih (fun u hu => hts u (List.mem_append_left _ hu))
        (fun hi u hu => hplain hi u (List.mem_append_left _ hu))
      obtain ⟨g, hg⟩ := h.padded hs ((last_isSome h).1 hl) n (hts t (by simp)) fun hi =>
        h.last_plain fun u hu => hplain (hr.inline_eq.symm.trans hi) u (List.mem_append_left _ hu)
      exact ⟨_, by simp, hg⟩
  | newline d hr hd ih =>
      obtain ⟨es, hes, h⟩ := ih hts hplain
      exact ⟨es, hes, h.newline hd⟩
  | continuation d hr ih =>
      obtain ⟨es, hes, h⟩ := ih hts hplain
      exact ⟨es, hes, h.setContinuation d⟩
  | parenSpace b hr ih =>
      obtain ⟨es, hes, h⟩ := ih hts hplain
      exact ⟨es, hes, h.setParenSpace b⟩

theorem finish (h : Fits o es w) : w.finish o = es.flatMap (Placed.text o.keywordCase) ++
    if es.any Placed.breaks then ['\n'] else [] := by
  have hlong : 1 < w.lines.length ↔ es.any Placed.breaks = true := by
    rw [h.count, List.any_eq_true]
    constructor
    · intro hlt
      have : 0 < es.countP Placed.breaks := by split at hlt <;> omega
      simpa [List.countP_pos_iff] using this
    · intro hex
      have hpos : 0 < es.countP Placed.breaks := by simpa [List.countP_pos_iff] using hex
      have hne : es ≠ [] := by rintro rfl; simp at hpos
      rw [if_neg hne]
      omega
  rw [finish_eq o h.flush, h.body]
  simp only [hlong]

end Fits

theorem format_placed (o : LayoutOptions) (ts : List Token)
    (hts : ∀ t ∈ ts.filter Token.isSignificant, t.text ≠ []) :
    ∃ es : List Placed, es.map Placed.token = ts.filter Token.isSignificant ∧ Sequence es ∧
      format o ts = es.flatMap (Placed.text o.keywordCase) ++
        if es.any Placed.breaks then ['\n'] else [] := by
  have hflat := splitStatements_flatten (ts.filter Token.isSignificant)
  have hblock : ∃ es : List Placed, es.map Placed.token = ts.filter Token.isSignificant ∧
      Sequence es ∧ (writeStatements o (splitStatements (ts.filter Token.isSignificant))).finish o =
        es.flatMap (Placed.text o.keywordCase) ++ if es.any Placed.breaks then ['\n'] else [] := by
    have hrun := writeStatements_writes o (splitStatements (ts.filter Token.isSignificant))
    rw [hflat] at hrun
    obtain ⟨es, hes, hfit⟩ := Fits.run o hrun hts (by simp)
    exact ⟨es, hes, hfit.sequence, hfit.finish⟩
  unfold format
  dsimp only
  split
  next line hline =>
    split at hline
    next only honly =>
      have hone : only = ts.filter Token.isSignificant := by simpa [honly] using hflat
      unfold singleLine? at hline
      split at hline
      · simp at hline
      next hbreak =>
        have hfits := (Option.ite_none_right_eq_some.1 hline).2
        have hplain : ∀ t ∈ only, t.isLineComment = false := by
          intro t ht
          have : t.forcesBreak = false := by
            simpa using List.any_eq_false.1 (Bool.eq_false_iff.2 hbreak) t ht
          exact (Bool.or_eq_false_iff.1 this).1
        obtain ⟨es, hes, hfit⟩ := Fits.run o (lineWriter_writes only) (hone ▸ hts) fun _ => hplain
        exact ⟨es, hone ▸ hes, hfit.sequence, by rw [← Option.some.inj hfits]; exact hfit.finish⟩
    · simp at hline
  · exact hblock

theorem flatMap_text_shift (case : KeywordCase) (e : Placed) (es : List Placed) (rest : Text) :
    (e :: es).flatMap (Placed.text case) ++ rest = e.gap ++
      (List.zipWith (fun t g => casedText case t ++ g) ((e :: es).map Placed.token)
        (es.map Placed.gap ++ [rest])).flatten := by
  induction es generalizing e with
  | nil => simp [Placed.text]
  | cons f es ih =>
      have hrest := ih f
      rw [List.flatMap_cons, List.append_assoc, hrest]
      simp [Placed.text]

theorem format_interleaves (o : LayoutOptions) (ts : List Token) (hts : ∀ t ∈ ts, t.text ≠ []) :
    ∃ gaps : List Text,
      gaps.length = (ts.filter Token.isSignificant).length ∧
      format o ts = (List.zipWith (fun t g => casedText o.keywordCase t ++ g)
        (ts.filter Token.isSignificant) gaps).flatten ∧
      (∀ g ∈ gaps.dropLast, IsGap g) ∧ ∀ g ∈ gaps.getLast?, g = [] ∨ g = ['\n'] := by
  obtain ⟨es, hes, hseq, hformat⟩ := format_placed o ts fun t ht =>
    hts t (List.mem_of_mem_filter ht)
  rw [← hes, hformat]
  cases es with
  | nil => exact ⟨[], by simp⟩
  | cons e es =>
      have hfirst : e.gap = [] := (hseq.first e (by simp)).1
      have hgaps : ∀ f ∈ es, IsGap f.gap := fun f hf => hseq.isGap f (by simp [hf])
      refine ⟨es.map Placed.gap ++ [if (e :: es).any Placed.breaks then ['\n'] else []],
        by simp, ?_, ?_, ?_⟩
      · rw [flatMap_text_shift, hfirst, List.nil_append]
      · simpa using hgaps
      · intro g hg
        rw [Option.mem_def, List.getLast?_concat] at hg
        rw [← Option.some.inj hg]
        split
        · exact .inr rfl
        · exact .inl rfl

theorem format_interleaves_comment :
    let ts : List Token :=
      [⟨.keyword, ['s', 'e', 't'], 0⟩, ⟨.blank, [' '], 3⟩, ⟨.identifier, ['a'], 4⟩,
       ⟨.comment, ['-', '-', 'c'], 5⟩, ⟨.blank, [' '], 8⟩, ⟨.punctuation, [','], 9⟩,
       ⟨.literal, ['1'], 10⟩]
    (∀ t ∈ ts, t.text ≠ []) ∧ ∃ gaps : List Text,
      gaps.length = (ts.filter Token.isSignificant).length ∧
      format {} ts = (List.zipWith (fun t g => casedText .upper t ++ g)
        (ts.filter Token.isSignificant) gaps).flatten ∧
      (∀ g ∈ gaps.dropLast, IsGap g) ∧ ∀ g ∈ gaps.getLast?, g = [] ∨ g = ['\n'] :=
  ⟨by decide, format_interleaves {} _ (by decide)⟩

end EmbeddedSql.Layout
