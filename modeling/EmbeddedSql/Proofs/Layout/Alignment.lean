import EmbeddedSql.Proofs.Layout.Measuring
import EmbeddedSql.Proofs.Layout.Respelling

namespace EmbeddedSql.Layout

open Text

namespace Line

theorem length_text (case : KeywordCase) (l : Line) : (l.text case).length = l.width := by
  have hpiece (p : Piece) : (p.text case).length = p.width := by
    cases p with
    | spaces n => exact List.length_replicate
    | token t => exact length_casedText case t
  have hall (ps : List Piece) : (ps.flatMap (Piece.text case)).length =
      ps.foldr (fun p n => p.width + n) 0 := by
    induction ps with
    | nil => rfl
    | cons p ps ih => rw [List.flatMap_cons, List.length_append, hpiece, ih, List.foldr_cons]
  exact hall l.pieces

theorem isEmpty_of_text {case : KeywordCase} {l k : Line} (h : k.text case = l.text case) :
    k.isEmpty = l.isEmpty := by
  rw [isEmpty_eq_width, isEmpty_eq_width, ← length_text case k, h, length_text]

end Line

namespace Writer

variable {w v : Writer} {l : Line} {t : Token}

theorem last_pushAll (w : Writer) (ts : List Token) :
    (w.pushAll ts).last = ts.getLast?.or w.last := by
  induction ts generalizing w with
  | nil => rfl
  | cons t r ih =>
      refine (ih (w.push t)).trans ?_
      cases r with
      | nil => rfl
      | cons u r => simp [List.getLast?_cons]

theorem tokensOn_pushAll (w : Writer) (ts : List Token) :
    tokensOn (w.pushAll ts).lines = tokensOn w.lines ++ shown ts := by
  induction ts generalizing w with
  | nil => exact (List.append_nil _).symm
  | cons t r ih =>
      refine (ih (w.push t)).trans ?_
      rw [tokensOn_push, List.append_assoc, ← shown_append]
      rfl

structure Breaks (w : Writer) : Prop where
  inline : w.inline = false
  parenSpace : w.parenSpace = false

namespace Breaks

theorem newline (h : w.Breaks) (depth : Nat) : (w.newline depth).Breaks := by
  obtain ⟨_, _, hn, -⟩ := newline_eq h.inline depth
  rw [hn]
  exact ⟨h.inline, h.parenSpace⟩

theorem setContinuation (h : w.Breaks) (depth : Nat) : (w.setContinuation depth).Breaks :=
  ⟨h.inline, h.parenSpace⟩

theorem padTo (h : w.Breaks) (n : Nat) : (w.padTo n).Breaks := by
  rcases padTo_eq w n with hpad | ⟨_, _, -, -, hpad⟩ <;> rw [hpad]
  · exact h
  · exact ⟨h.inline, h.parenSpace⟩

theorem settle (h : w.Breaks) : w.settle.Breaks := by
  unfold Writer.settle
  split
  · exact h.newline w.continuation
  · exact h

theorem push (h : w.Breaks) (t : Token) : (w.push t).Breaks :=
  ⟨h.settle.inline, h.settle.parenSpace⟩

theorem pushAll (h : w.Breaks) (ts : List Token) : (w.pushAll ts).Breaks := by
  induction ts generalizing w with
  | nil => exact h
  | cons t r ih => exact ih (h.push t)

end Breaks

theorem push_current (hw : w.pendingBreak = false) (hl : w.current = some l) (t : Token) :
    ∃ gap, (gap = [] ∨ gap = [Piece.spaces 1]) ∧
      (w.push t).current = some { l with pieces := l.pieces ++ gap ++ [.token t] } ∧
      (w.push t).done = w.done := by
  have hsettle : w.settle = w := settle_of_settled (.inr hw)
  have hdone : (w.push t).done = w.done := by
    show w.settle.done = w.done
    rw [hsettle]
  have hcurrent : (w.push t).current = some ((Look.spacedLine w.settle t).push (.token t)) := rfl
  rw [hsettle, Look.spacedLine, hl] at hcurrent
  dsimp only [Option.getD_some] at hcurrent
  split at hcurrent
  · exact ⟨[.spaces 1], .inr rfl, hcurrent, hdone⟩
  · exact ⟨[], .inl rfl, by simpa [Line.push] using hcurrent, hdone⟩

theorem padTo_current (hl : w.current = some l) (n : Nat) (case : KeywordCase) :
    ∃ k, (w.padTo n).current = some k ∧ k.depth = l.depth ∧
      k.text case = l.text case ++ spaces (n - l.width) ∧ (w.padTo n).done = w.done ∧
      (w.padTo n).pendingBreak = w.pendingBreak := by
  unfold padTo
  rw [currentWidth_of_current hl, hl]
  dsimp only
  split
  next => exact ⟨_, rfl, rfl, Line.push_text case l _, rfl, rfl⟩
  next hwide =>
    have hzero : n - l.width = 0 := Nat.sub_eq_zero_of_le (Nat.le_of_not_lt hwide)
    exact ⟨l, hl, rfl, by rw [hzero]; exact (List.append_nil _).symm, rfl, rfl⟩

theorem exists_done_pushAll (h : w.inline = false) (ts : List Token) :
    ∃ ls, (w.pushAll ts).done = w.done ++ ls := by
  induction ts generalizing w with
  | nil => exact ⟨[], (List.append_nil _).symm⟩
  | cons t r ih =>
      obtain ⟨above, habove⟩ := exists_done_push h t
      obtain ⟨ls, hls⟩ := ih (w := w.push t) (by rw [push_inline, h])
      exact ⟨above ++ ls, by rw [← List.append_assoc, ← habove]; exact hls⟩

theorem exists_lines_pushAll (h : w.inline = false) (ts : List Token) :
    ∃ ls, (w.pushAll ts).lines = w.done ++ ls := by
  obtain ⟨above, habove⟩ := exists_done_pushAll h ts
  obtain ⟨below, hbelow⟩ := (w.pushAll ts).exists_lines_eq
  exact ⟨above ++ below, by rw [hbelow, habove, List.append_assoc]⟩

theorem lines_pushAll_of_current (h : w.inline = false) (hl : w.current = some l)
    (hne : l.isEmpty = false) (ts : List Token) : ∃ behind more,
      (w.pushAll ts).lines = w.done ++ { l with pieces := l.pieces ++ behind } :: more := by
  induction ts generalizing w l with
  | nil =>
      refine ⟨[], [], (lines_of_current hl hne).trans ?_⟩
      rw [List.append_nil]
  | cons t r ih =>
      have hinline : (w.push t).inline = false := by rw [push_inline, h]
      cases hpending : w.pendingBreak with
      | true =>
          have hdone : (w.push t).done = w.done ++ [l] := by
            show w.settle.done = w.done ++ [l]
            rw [settle, if_pos hpending, done_newline h, lines_of_current hl hne]
          obtain ⟨ls, hls⟩ := exists_lines_pushAll hinline r
          refine ⟨[], ls, hls.trans ?_⟩
          rw [hdone, List.append_nil, List.append_assoc]
          rfl
      | false =>
          obtain ⟨gap, -, hcurrent, hdone⟩ := push_current hpending hl t
          have hne' : Line.isEmpty { l with pieces := l.pieces ++ gap ++ [.token t] } = false := by
            rw [Line.isEmpty, List.append_assoc, List.all_append]
            exact Bool.and_eq_false_iff.2 (.inl hne)
          obtain ⟨behind, more, hmore⟩ := ih hinline hcurrent hne'
          refine ⟨gap ++ .token t :: behind, more, hmore.trans ?_⟩
          rw [hdone]
          simp

/-- One writer is on a line at level `depth` below the lines `done`, the other on the only line it
has. What they have put there is the same, and if it is anything, so is what decides on the next
space. -/
structure InStep (case : KeywordCase) (done : List Line) (depth : Nat) (w v : Writer) : Prop where
  breaks : w.Breaks
  settled : w.pendingBreak = false
  done : w.done = done
  fresh : v.inline = true ∧ v.finished = [] ∧ v.parenSpace = false
  current : ∃ l, w.current = some l ∧ l.depth = depth ∧ (v.current.getD {}).text case = l.text case
  neighbour : (v.current.getD {}).isEmpty = true ∨ v.last = w.last ∧ v.lastUnary = w.lastUnary

namespace InStep

variable {case : KeywordCase} {done : List Line} {depth : Nat}

theorem start (case : KeywordCase) (h : w.Breaks) (depth : Nat) :
    InStep case w.lines depth (w.newline depth) { inline := true } := by
  have hbreaks := h.newline depth
  have hdone := done_newline h.inline depth
  obtain ⟨_, line, hn, hempty, hdepth, -⟩ := newline_eq h.inline depth
  rw [hn] at hbreaks hdone ⊢
  exact ⟨hbreaks, rfl, hdone, ⟨rfl, rfl, rfl⟩,
    ⟨line, rfl, hdepth, (Line.text_of_isEmpty hempty case).symm⟩, .inl rfl⟩

theorem setContinuation (h : InStep case done depth w v) (level : Nat) :
    InStep case done depth (w.setContinuation level) v :=
  { h with breaks := h.breaks.setContinuation level }

theorem push (h : InStep case done depth w v) (ht : t.isLineComment = false)
    (hunary : isUnary t v.last = isUnary t w.last) :
    InStep case done depth (w.push t) (v.push t) := by
  have hw : w.settle = w := settle_of_settled (.inr h.settled)
  have hv : v.settle = v := settle_of_settled (.inl h.fresh.1)
  obtain ⟨l, hl, hdepth, htext⟩ := h.current
  have hspaced : (needsSpace v.last v.lastUnary v.parenSpace t && !(v.current.getD {}).isEmpty) =
      (needsSpace w.last w.lastUnary w.parenSpace t && !l.isEmpty) := by
    have hempty := Line.isEmpty_of_text htext
    -- a line that is empty gets no space, whatever was written last
    rcases h.neighbour with hnone | ⟨hlast, hlastUnary⟩
    · rw [← hempty, hnone, Bool.not_true, Bool.and_false, Bool.and_false]
    · rw [hlast, hlastUnary, h.fresh.2.2, h.breaks.parenSpace, hempty]
  constructor
  · exact h.breaks.push t
  · show (w.settle.pendingBreak || t.isLineComment) = false
    rw [hw, h.settled, ht, Bool.or_false]
  · exact (congrArg Writer.done hw).trans h.done
  · show v.settle.inline = true ∧ v.settle.finished = [] ∧ v.settle.parenSpace = false
    rw [hv]
    exact h.fresh
  · simp only [Writer.push, hw, hv, hl, Option.getD_some, hspaced]
    split
    · exact ⟨_, rfl, hdepth, by simp [htext]⟩
    · exact ⟨_, rfl, hdepth, by simp [htext]⟩
  · refine .inr ⟨rfl, ?_⟩
    show isUnary t v.settle.last = isUnary t w.settle.last
    rw [hw, hv, hunary]

theorem pushAll {ts : List Token} (h : InStep case done depth w v)
    (hts : ∀ t ∈ ts, t.isLineComment = false) (hsign : allowsSign v.last = allowsSign w.last) :
    InStep case done depth (w.pushAll ts) (v.pushAll ts) := by
  induction ts generalizing w v with
  | nil => exact h
  | cons t r ih =>
      obtain ⟨ht, hr⟩ := List.forall_mem_cons.1 hts
      exact ih (h.push ht (by rw [isUnary_eq, isUnary_eq, hsign])) hr rfl

theorem exists_current {o : LayoutOptions} (h : InStep o.keywordCase done depth w v) :
    ∃ l, w.current = some l ∧ l.depth = depth ∧ l.text o.keywordCase = v.finish o := by
  obtain ⟨l, hl, hdepth, htext⟩ := h.current
  refine ⟨l, hl, hdepth, htext.symm.trans ?_⟩
  rw [finish, lines, h.fresh.2.1, List.nil_append]
  cases v.current with
  | none => rfl
  | some k =>
      cases hk : k.isEmpty with
      | true => simpa [hk] using Line.text_of_isEmpty hk o.keywordCase
      | false => simp [hk]

end InStep

end Writer

def Row.front (row : Row) (n : Nat) : List Token := row.leading.toList ++ row.item.tokens.take n

def Row.aliased? (row : Row) : Option Nat :=
  (aliasPosition? row.item.tokens).filter fun n => !(row.item.tokens.take n).any Token.forcesBreak

def frontWidths (o : LayoutOptions) (rows : List Row) : List Nat :=
  rows.filterMap fun row => row.aliased?.map fun n => (inlineText o (row.front n)).length

/-- Of the lines of a row, the first is at level `depth` and holds the token at index `n` of the
item behind `column` characters: what stands before it, as it is measured, and spaces. -/
def Row.StandsAt (o : LayoutOptions) (depth column : Nat) (row : Row) (n : Nat)
    (block : List Line) : Prop :=
  ∃ l more front gap t behind, block = l :: more ∧ l.depth = depth ∧
    l.pieces = front ++ gap ++ Piece.token t :: behind ∧ row.item.tokens[n]? = some t ∧
    (gap = [] ∨ gap = [.spaces 1]) ∧
    (front.flatMap (Piece.text o.keywordCase)).length = column ∧
    ∃ k, front.flatMap (Piece.text o.keywordCase) = inlineText o (row.front n) ++ spaces k

def Row.trail (o : LayoutOptions) (row : Row) : List Token :=
  if o.commaPosition = .trailing && !row.item.endsInLineComment then row.item.comma.toList else []

section

variable {o : LayoutOptions} {query : QueryWriter} {depth column n : Nat} {w : Writer} {row : Row}

theorem writeTokens_eq_pushAll (query : QueryWriter) (depth : Nat) (w : Writer) {ts : List Token}
    (h : containsSubquery ts = false) :
    writeTokens query depth w ts = (w.setContinuation depth).pushAll ts :=
  writeRun_eq_pushAll query depth _ h

theorem containsSubquery_take {ts : List Token} (h : aliasPosition? ts = some n)
    (hflat : containsSubquery ts = false) : containsSubquery (ts.take n) = false := by
  rw [← List.take_append_drop n ts,
    (aliasPosition?_closesGroups h).containsSubquery_append] at hflat
  exact (Bool.or_eq_false_iff.1 hflat).1

theorem writeRow_plain (o : LayoutOptions) (query : QueryWriter) (depth column : Nat) (w : Writer)
    (hat : row.aliasAt = none) (hflat : containsSubquery row.item.tokens = false) :
    writeRow o query depth column w row =
      (((w.newline depth).pushAll row.leading.toList).setContinuation depth).pushAll
        (row.item.tokens ++ row.trail o) := by
  rw [writeRow_eq, hat, writeItem, writeTokens_eq_pushAll query depth _ hflat,
    Writer.pushAll_append]
  rfl

theorem writeRow_padded (o : LayoutOptions) (query : QueryWriter) (depth column : Nat) (w : Writer)
    (hat : row.aliasAt = some n) (hn : aliasPosition? row.item.tokens = some n)
    (hflat : containsSubquery row.item.tokens = false) :
    writeRow o query depth column w row =
      (((((((w.newline depth).pushAll row.leading.toList).setContinuation depth).pushAll
        (row.item.tokens.take n)).padTo column).setContinuation depth).pushAll
          (row.item.tokens.drop n ++ row.trail o)) := by
  rw [writeRow_eq, hat, writeItem,
    writeTokens_eq_pushAll query depth _ (containsSubquery_take hn hflat),
    writeTokens_eq_pushAll query depth _ (containsSubquery_drop hflat n), Writer.pushAll_append]
  rfl

structure Row.Alignable (o : LayoutOptions) (column : Nat) (row : Row) : Prop where
  comma : ∀ t ∈ row.leading, t.isPunct ',' = true
  flat : containsSubquery row.item.tokens = false
  aliasAt : row.aliasAt = row.aliased?
  narrow : ∀ n ∈ row.aliased?, (inlineText o (row.front n)).length ≤ column

theorem Row.aliased?_eq_some (h : row.aliased? = some n) :
    aliasPosition? row.item.tokens = some n ∧
      ∀ t ∈ row.item.tokens.take n, t.isLineComment = false := by
  obtain ⟨hn, hquiet⟩ := Option.filter_eq_some_iff.1 h
  refine ⟨hn, fun t ht => ?_⟩
  have hforces : (row.item.tokens.take n).any Token.forcesBreak = false := by simpa using hquiet
  exact (forcesBreak_eq_false.1 (Bool.eq_false_iff.2 (List.any_eq_false.1 hforces t ht))).1

theorem Row.Alignable.inStep (depth : Nat) (hrow : row.Alignable o column)
    (hn : row.aliased? = some n) (hw : w.Breaks)
    (hsign : allowsSign (row.leading.or w.last) = true) (case : KeywordCase) :
    Writer.InStep case w.lines depth
      ((((w.newline depth).pushAll row.leading.toList).setContinuation depth).pushAll
        (row.item.tokens.take n))
      (Writer.pushAll { inline := true } (row.front n)) := by
  obtain ⟨-, hquiet⟩ := Row.aliased?_eq_some hn
  have hstart := Writer.InStep.start case hw depth
  rw [Row.front, Writer.pushAll_append]
  -- the two differ in the token before the row, which matters to a sign only
  cases hleading : row.leading with
  | none =>
      refine (hstart.setContinuation depth).pushAll hquiet ?_
      show true = allowsSign (w.newline depth).last
      rw [Writer.newline_last, ← hsign, hleading, Option.none_or]
  | some c =>
      have hcomma := hrow.comma c hleading
      have hplain : isSign c = false := by simp [isSign, (isPunct_iff.1 hcomma).1]
      have hfirst := hstart.push (isPunct_not_isLineComment hcomma)
        (by rw [isUnary_eq, isUnary_eq, hplain, Bool.false_and, Bool.false_and])
      exact (hfirst.setContinuation depth).pushAll hquiet rfl

theorem Row.Alignable.standsAt (query : QueryWriter) (depth : Nat) (hrow : row.Alignable o column)
    (hn : row.aliased? = some n) (hw : w.Breaks)
    (hsign : allowsSign (row.leading.or w.last) = true) :
    ∃ block, (writeRow o query depth column w row).lines = w.lines ++ block ∧
      row.StandsAt o depth column n block := by
  obtain ⟨hposition, -⟩ := Row.aliased?_eq_some hn
  obtain ⟨t, r, hdrop, hnamed⟩ := aliasFrom?_named hposition
  have hstep := hrow.inStep depth hn hw hsign o.keywordCase
  rw [writeRow_padded o query depth column w (hrow.aliasAt.trans hn) hposition hrow.flat, hdrop]
  generalize (((w.newline depth).pushAll row.leading.toList).setContinuation depth).pushAll
    (row.item.tokens.take n) = front at hstep ⊢
  obtain ⟨l, hl, hdepth, htext⟩ := hstep.exists_current
  obtain ⟨k, hk, hkdepth, hktext, hdone, hpending⟩ :=
    Writer.padTo_current hl column o.keywordCase
  -- the comma and what is named reach no further than the column
  have hwidth : (k.text o.keywordCase).length = column := by
    have hnarrow : (l.text o.keywordCase).length ≤ column := htext ▸ hrow.narrow n hn
    rw [hktext, List.length_append, spaces, List.length_replicate, ← l.length_text o.keywordCase]
    omega
  obtain ⟨gap, hgap, hcurrent, hpush⟩ := Writer.push_current
    (w := (front.padTo column).setContinuation depth) (hpending.trans hstep.settled) hk t
  have hne : Line.isEmpty { k with pieces := k.pieces ++ gap ++ [.token t] } = false := by
    have htoken : t.text ≠ [] := by
      rintro hnil
      simp [Token.isKeywordNamed, equalsIgnoringCase, hnil, lower] at hnamed
    simp [Line.isEmpty, Piece.isEmpty, htoken]
  obtain ⟨behind, more, hlines⟩ := Writer.lines_pushAll_of_current
    (((hstep.breaks.padTo column).setContinuation depth).push t).inline hcurrent hne
    (r ++ row.trail o)
  refine ⟨{ k with pieces := k.pieces ++ gap ++ .token t :: behind } :: more, ?_,
    _, more, k.pieces, gap, t, behind, rfl, hkdepth.trans hdepth, rfl, ?_, hgap, hwidth,
    column - l.width, ?_⟩
  · have hbelow : ((front.padTo column).setContinuation depth).done = w.lines :=
      hdone.trans hstep.done
    refine hlines.trans ?_
    rw [hpush, hbelow]
    simp
  · rw [← List.head?_drop, hdrop]
    rfl
  · rw [inlineText, ← htext]
    exact hktext

theorem Row.Alignable.breaks (hrow : row.Alignable o column) (hw : w.Breaks) :
    (writeRow o query depth column w row).Breaks := by
  have hlead := ((hw.newline depth).pushAll row.leading.toList).setContinuation depth
  cases hat : row.aliased? with
  | none =>
      rw [writeRow_plain o query depth column w (hrow.aliasAt.trans hat) hrow.flat]
      exact hlead.pushAll _
  | some n =>
      rw [writeRow_padded o query depth column w (hrow.aliasAt.trans hat)
        (Row.aliased?_eq_some hat).1 hrow.flat]
      exact (((hlead.pushAll _).padTo column).setContinuation depth).pushAll _

theorem Row.Alignable.tokensOn_writeRow (query : QueryWriter) (depth : Nat) (w : Writer)
    (hrow : row.Alignable o column) :
    tokensOn (writeRow o query depth column w row).lines =
      tokensOn w.lines ++ shown (row.written o) := by
  have hcontinuation (w : Writer) : tokensOn (w.setContinuation depth).lines = tokensOn w.lines :=
    rfl
  have hlead : tokensOn ((w.newline depth).pushAll row.leading.toList).lines =
      tokensOn w.lines ++ shown row.leading.toList := by
    rw [Writer.tokensOn_pushAll, Writer.tokensOn_of_spots (Writer.spots_newline w depth)]
  have hwritten : shown (row.written o) =
      shown row.leading.toList ++ shown (row.item.tokens ++ row.trail o) := by
    rw [← shown_append, ← List.append_assoc]
    rfl
  cases hat : row.aliased? with
  | none =>
      rw [writeRow_plain o query depth column w (hrow.aliasAt.trans hat) hrow.flat,
        Writer.tokensOn_pushAll, hcontinuation, hlead, hwritten, List.append_assoc]
  | some n =>
      have hitem : shown (row.item.tokens ++ row.trail o) =
          shown (row.item.tokens.take n) ++ shown (row.item.tokens.drop n ++ row.trail o) := by
        rw [← shown_append, ← List.append_assoc, List.take_append_drop]
      rw [writeRow_padded o query depth column w (hrow.aliasAt.trans hat)
        (Row.aliased?_eq_some hat).1 hrow.flat, Writer.tokensOn_pushAll, hcontinuation,
        Writer.tokensOn_of_spots (Writer.spots_padTo _ column), Writer.tokensOn_pushAll,
        hcontinuation, hlead, hwritten, hitem]
      simp only [List.append_assoc]

def Row.FillsBlock (o : LayoutOptions) (depth column : Nat) (row : Row) (block : List Line) :
    Prop :=
  tokensOn block = shown (row.written o) ∧
    ∀ n ∈ row.aliased?, row.StandsAt o depth column n block

theorem Row.Alignable.fillsBlock (query : QueryWriter) (depth : Nat)
    (hrow : row.Alignable o column) (hw : w.Breaks)
    (hsign : allowsSign (row.leading.or w.last) = true) :
    ∃ block, (writeRow o query depth column w row).lines = w.lines ++ block ∧
      row.FillsBlock o depth column block := by
  have htokens (block : List Line)
      (hblock : (writeRow o query depth column w row).lines = w.lines ++ block) :
      tokensOn block = shown (row.written o) := by
    have hall := hrow.tokensOn_writeRow query depth w
    rw [hblock, tokensOn_append] at hall
    exact List.append_cancel_left hall
  cases hat : row.aliased? with
  | none =>
      have hnew := hw.newline depth
      obtain ⟨above, habove⟩ := Writer.exists_done_pushAll hnew.inline row.leading.toList
      obtain ⟨ls, hls⟩ := Writer.exists_lines_pushAll
        ((hnew.pushAll row.leading.toList).setContinuation depth).inline
        (row.item.tokens ++ row.trail o)
      have hblock : (writeRow o query depth column w row).lines = w.lines ++ (above ++ ls) := by
        rw [writeRow_plain o query depth column w (hrow.aliasAt.trans hat) hrow.flat, hls,
          ← List.append_assoc, ← Writer.done_newline hw.inline depth, ← habove]
        rfl
      exact ⟨above ++ ls, hblock, htokens _ hblock, fun n hn => by simp [hat] at hn⟩
  | some n =>
      obtain ⟨block, hblock, hstands⟩ :=
        hrow.standsAt query depth hat hw hsign
      refine ⟨block, hblock, htokens block hblock, fun m hm => ?_⟩
      obtain rfl : n = m := by simpa [hat] using hm
      exact hstands

end

theorem allowsSign_of_isComma {t : Token} (h : t.isPunct ',' = true) :
    allowsSign (some t) = true := by
  simp [allowsSign, (isPunct_iff.1 h).1, h]

theorem itemsFrom_ends (depth : Nat) (ts : List Token) :
    ∀ item ∈ (itemsFrom depth ts).dropLast, item.comma.isSome = true := by
  induction ts generalizing depth with
  | nil => simp [itemsFrom]
  | cons t r ih =>
      have hr := ih (Token.depthAfter depth t)
      obtain ⟨init, last, hlast⟩ := itemsFrom_last (Token.depthAfter depth t) r
      simp only [itemsFrom]
      rw [hlast, List.dropLast_concat] at hr
      rw [hlast]
      split
      · rw [← List.cons_append, List.dropLast_concat]
        exact List.forall_mem_cons.2 ⟨rfl, hr⟩
      · cases init with
        | nil => simp
        | cons item init =>
            obtain ⟨hitem, hinit⟩ := List.forall_mem_cons.1 hr
            dsimp only [List.cons_append]
            rw [← List.cons_append, List.dropLast_concat]
            exact List.forall_mem_cons.2 ⟨hitem, hinit⟩

section

variable {o : LayoutOptions} {kind : ClauseKind} {depth column : Nat}

theorem rowsAfter_blocks (query : QueryWriter) {items : List ListItem} (leading : Option Token)
    {w : Writer} (hw : w.Breaks) (hsign : allowsSign (leading.or w.last) = true)
    (hends : ∀ item ∈ items.dropLast, item.comma.isSome = true)
    (hcomma : ∀ item ∈ items, ∀ t ∈ item.comma, t.isPunct ',' = true)
    (hrows : ∀ row ∈ rowsAfter o kind leading items, row.Alignable o column) :
    ∃ blocks, ((rowsAfter o kind leading items).foldl (writeRow o query depth column) w).lines =
        w.lines ++ blocks.flatten ∧
      List.Forall₂ (Row.FillsBlock o depth column) (rowsAfter o kind leading items) blocks := by
  induction items generalizing w leading with
  | nil => exact ⟨[], (List.append_nil _).symm, .nil⟩
  | cons item items ih =>
      rw [rowsAfter_cons, List.forall_mem_cons] at hrows
      obtain ⟨hrow, hrest⟩ := hrows
      obtain ⟨block, hblock, hfills⟩ := hrow.fillsBlock query depth hw hsign
      cases items with
      | nil =>
          refine ⟨[block], ?_, .cons hfills .nil⟩
          rw [List.flatten_singleton]
          exact hblock
      | cons next items =>
          rw [List.dropLast_cons_cons, List.forall_mem_cons] at hends
          obtain ⟨c, hc⟩ := Option.isSome_iff_exists.1 hends.1
          have hpunct := hcomma item (by simp) c hc
          -- a comma stands before the next item, on the line above or on its own
          have hsign' : allowsSign ((carriedComma o item).or (writeRow o query depth column w
              ⟨leading, item, alignedAlias? o kind item⟩).last) = true := by
            cases hcarried : carriedComma o item with
            | none =>
                rw [Option.none_or, writeRow_last o query depth column w hc hcarried]
                exact allowsSign_of_isComma hpunct
            | some d =>
                have hd := hcomma item (by simp) d (carriedComma_mem hcarried)
                exact allowsSign_of_isComma hd
          obtain ⟨blocks, hblocks, hall⟩ := ih _ (hrow.breaks hw) hsign' hends.2
            (fun i hi => hcomma i (by simp [hi])) hrest
          refine ⟨block :: blocks, ?_, .cons hfills hall⟩
          rw [rowsAfter_cons, List.foldl_cons, hblocks, hblock, List.flatten_cons,
            List.append_assoc]

theorem splitList_containsSubquery {ts : List Token} (h : containsSubquery ts = false) :
    ∀ item ∈ splitList ts, containsSubquery item.tokens = false := by
  intro item hitem
  have hparts : containsSubquery item.parts = false := by
    rw [← splitList_parts ts] at h
    exact containsSubquery_parts (parts_closesGroups ts) h item hitem
  cases hcomma : item.comma with
  | none => simpa [ListItem.parts, hcomma] using hparts
  | some t =>
      rw [ListItem.parts, (splitList_comma hitem hcomma).2.containsSubquery_append] at hparts
      exact (Bool.or_eq_false_iff.1 hparts).1

theorem alignedAlias?_eq (halign : o.alignAliases = true) {row : Row}
    (hflat : containsSubquery row.item.tokens = false) :
    alignedAlias? o .selectList row.item = row.aliased? := by
  unfold alignedAlias? Row.aliased?
  cases hn : aliasPosition? row.item.tokens with
  | none => rfl
  | some n =>
      have hfront := containsSubquery_take hn hflat
      simp [Option.filter_some, needsBreak, halign, hfront]

theorem mem_frontWidths {rows : List Row} {row : Row} (hrow : row ∈ rows) {n : Nat}
    (hn : n ∈ row.aliased?) : (inlineText o (row.front n)).length ∈ frontWidths o rows := by
  refine List.mem_filterMap.2 ⟨row, hrow, ?_⟩
  rw [Option.mem_def.1 hn]
  rfl

theorem max?_frontWidths {rows : List Row} {row : Row} (hrow : row ∈ rows) {n : Nat}
    (hn : n ∈ row.aliased?) :
    (frontWidths o rows).max? = some ((frontWidths o rows).max?.getD 0) := by
  have hwidth := mem_frontWidths (o := o) hrow hn
  cases hmax : (frontWidths o rows).max? with
  | none =>
      rw [List.max?_eq_none_iff.1 hmax] at hwidth
      cases hwidth
  | some column => rfl

theorem rows_alignable (halign : o.alignAliases = true) {ts : List Token}
    (hflat : containsSubquery ts = false) :
    ∀ row ∈ rows o .selectList (splitList ts),
      row.Alignable o ((frontWidths o (rows o .selectList (splitList ts))).max?.getD 0) := by
  intro row hrow
  obtain ⟨hitem, hleading, hat⟩ := mem_rows hrow
  have htokens := splitList_containsSubquery hflat row.item hitem
  refine ⟨fun t ht => ?_, htokens, hat.trans (alignedAlias?_eq halign htokens), fun n hn => ?_⟩
  · obtain ⟨source, hsource, hcomma⟩ := hleading t ht
    exact (splitList_comma hsource hcomma).1
  · exact List.le_max?_getD_of_mem (mem_frontWidths hrow hn)

theorem aliasColumn?_eq {row : Row} (h : row.aliasAt = row.aliased?) :
    row.aliasColumn? o = row.aliased?.map fun n => (inlineText o (row.front n)).length := by
  rw [Row.aliasColumn?, h]
  rfl

theorem allowsSign_of_isKeywordAmong {t : Token} {words : List Text}
    (h : t.isKeywordAmong words = true)
    (hwords : ∀ word ∈ words, isAmongIgnoringCase valueKeywords word = false) :
    allowsSign (some t) = true := by
  obtain ⟨word, hword, hnamed⟩ := List.any_eq_true.1 h
  obtain ⟨hkey, htext⟩ := Bool.and_eq_true_iff.1 hnamed
  have hkind : t.kind = .keyword := of_decide_eq_true hkey
  have hlower : t.text.lower = word.lower := by simpa [equalsIgnoringCase] using htext
  simp [allowsSign, hkind, isAmongIgnoringCase_congr hlower, hwords word hword]

theorem allowsSign_selectHead {ts : List Token} {c : Clause} (hc : c ∈ splitClauses ts)
    (hkind : c.kind = .selectList) (w : Writer) : allowsSign (w.pushAll c.head).last = true := by
  have hhead : c.head ≠ [] := by
    rcases splitClauses_headed ts c hc with ⟨hpreamble, -⟩ | ⟨-, hne⟩
    · rw [hkind] at hpreamble
      cases hpreamble
    · exact hne
  have hlast := splitClauses_selectWords ts c hc hkind _ (List.getLast_mem hhead)
  rw [Writer.last_pushAll, List.getLast?_eq_some_getLast hhead, Option.some_or]
  exact allowsSign_of_isKeywordAmong hlast (by decide)

end

theorem writeClause_alignsAliases (o : LayoutOptions) (query : QueryWriter) (depth : Nat)
    {w : Writer} {ts : List Token} {c : Clause} (hw : w.inline = false) (hc : c ∈ splitClauses ts)
    (hkind : c.kind = .selectList) (hflat : containsSubquery c.body = false)
    (halign : o.alignAliases = true) (hsplit : splitsList o depth c = true) :
    let rows := rows o c.kind (splitList c.body)
    ∃ blocks, (writeClause o query depth w c).lines =
        ((w.beginClause depth c).pushAll c.head).lines ++ blocks.flatten ∧
      List.Forall₂ (fun row block => tokensOn block = shown (row.written o) ∧
        ∀ n ∈ row.aliased?, ∃ column, (frontWidths o rows).max? = some column ∧
          row.StandsAt o (depth + 1) column n block) rows blocks := by
  have halignable := rows_alignable halign hflat
  rw [← hkind] at halignable
  have hbreaks : (w.beginClause depth c).Breaks :=
    ⟨(w.newline_inline depth).trans hw, by simp [Writer.beginClause, Writer.setParenSpace, hkind]⟩
  have hcolumns : (rows o c.kind (splitList c.body)).filterMap (Row.aliasColumn? o) =
      frontWidths o (rows o c.kind (splitList c.body)) :=
    List.filterMap_congr fun row hrow => aliasColumn?_eq (halignable row hrow).aliasAt
  have hwrite : writeClause o query depth w c =
      (rows o c.kind (splitList c.body)).foldl (writeRow o query (depth + 1)
        ((frontWidths o (rows o c.kind (splitList c.body))).max?.getD 0))
        ((w.beginClause depth c).pushAll c.head) := by
    have hlist : c.kind.isList = true := by rw [hkind]; rfl
    rw [← hcolumns]
    dsimp only [writeClause]
    rw [if_pos hlist, writeList, if_pos hsplit]
    rfl
  obtain ⟨blocks, hblocks, hall⟩ := rowsAfter_blocks query none (hbreaks.pushAll c.head)
    (allowsSign_selectHead hc hkind _) (itemsFrom_ends 0 c.body)
    (itemsFrom_comma 0 c.body) halignable
  refine ⟨blocks, ?_, ?_⟩
  · rw [hwrite]
    exact hblocks
  · refine ((List.forall₂_and_left _ _).2 ⟨fun _ hrow => hrow, hall⟩).imp ?_
    rintro row block ⟨hrow, htokens, hstands⟩
    exact ⟨htokens, fun n hn => ⟨_, max?_frontWidths hrow hn, hstands n hn⟩⟩

theorem writeClause_alignsAliases_sign :
    let o : LayoutOptions := { lineLength := 20, commaPosition := .leading, alignAliases := true }
    let ts := (Vocabulary.tokenize {} "select cast(a as int) as a, -é as b, c from t".toList).filter
      Token.isSignificant
    let c := (splitClauses ts).headD ⟨.preamble, [], []⟩
    let rows := rows o c.kind (splitList c.body)
    c ∈ splitClauses ts ∧ c.kind = .selectList ∧ containsSubquery c.body = false ∧
      splitsList o 0 c = true ∧ frontWidths o rows = [14, 4] ∧
      ∃ blocks, (writeClause o (writeQuery o 0) 0 {} c).lines =
          ((Writer.beginClause {} 0 c).pushAll c.head).lines ++ blocks.flatten ∧
        List.Forall₂ (fun row block => tokensOn block = shown (row.written o) ∧
          ∀ n ∈ row.aliased?, ∃ column, (frontWidths o rows).max? = some column ∧
            row.StandsAt o 1 column n block) rows blocks := by
  intro o ts c rows
  obtain ⟨hc, hkind, hflat, hsplit, hwidths⟩ : c ∈ splitClauses ts ∧ c.kind = .selectList ∧
      containsSubquery c.body = false ∧ splitsList o 0 c = true ∧
      frontWidths o rows = [14, 4] := by decide +kernel
  refine ⟨hc, hkind, hflat, hsplit, hwidths, ?_⟩
  exact writeClause_alignsAliases o (writeQuery o 0) 0 rfl hc hkind hflat rfl hsplit

example :
    let o : LayoutOptions := { lineLength := 20, commaPosition := .leading, alignAliases := true }
    let ts := (Vocabulary.tokenize {} "select cast(a as int) as a, -é as b, c from t".toList).filter
      Token.isSignificant
    (writeStatements o [ts]).lines.map (fun l => (l.depth, String.ofList (l.text .upper))) =
      [(0, "SELECT"), (1, "cast(a AS int) AS a"), (1, ", -é           AS b"), (1, ", c"),
        (0, "FROM t")] := by
  decide +kernel

end EmbeddedSql.Layout
