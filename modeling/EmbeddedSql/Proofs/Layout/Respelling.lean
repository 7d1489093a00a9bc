import EmbeddedSql.Proofs.Clause.Respelling
import EmbeddedSql.Proofs.Layout.Likeness

namespace EmbeddedSql.Layout

open Text

theorem length_casedText (case : KeywordCase) (t : Token) :
    (casedText case t).length = t.text.length := by
  unfold casedText
  split <;> simp [upper, lower]

def Piece.respell (f : Token → Token) : Piece → Piece
  | .spaces n => .spaces n
  | .token t => .token (f t)

def Line.respell (f : Token → Token) (l : Line) : Line :=
  ⟨l.depth, l.pieces.map (Piece.respell f)⟩

def Writer.respell (f : Token → Token) (w : Writer) : Writer :=
  { w with
    finished := w.finished.map (Line.respell f)
    current := w.current.map (Line.respell f)
    last := w.last.map f }

def Row.respell (f : Token → Token) (row : Row) : Row :=
  ⟨row.leading.map f, row.item.respell f, row.aliasAt⟩

def Piece.mark : Piece → Text ⊕ Token
  | .spaces n => .inl (Text.spaces n)
  | .token t => .inr t

def Line.marks (l : Line) : List (Text ⊕ Token) := l.pieces.map Piece.mark

def Writer.marks (o : LayoutOptions) (w : Writer) : List (Text ⊕ Token) :=
  (w.finished ++ w.current.toList).flatMap fun l =>
    if l.isEmpty || decide (w.lines.length ≤ 1) then l.marks
    else .inl (spaces (l.depth * o.indentWidth)) :: l.marks ++ [.inl ['\n']]

def markText (case : KeywordCase) : Text ⊕ Token → Text := Sum.elim id (casedText case)

theorem Line.flatMap_marks (case : KeywordCase) (l : Line) :
    l.marks.flatMap (markText case) = l.text case := by
  rw [Line.marks, List.flatMap_map]
  refine List.flatMap_congr fun p _ => ?_
  cases p <;> rfl

theorem Writer.finish_eq_marks (o : LayoutOptions) (w : Writer) :
    w.finish o = (w.marks o).flatMap (markText o.keywordCase) := by
  have hempty (l : Line) (hl : l.isEmpty = true) : (if l.isEmpty || decide (w.lines.length ≤ 1)
      then l.marks else .inl (spaces (l.depth * o.indentWidth)) :: l.marks ++ [.inl ['\n']]).flatMap
        (markText o.keywordCase) = [] := by
    rw [hl, Bool.true_or, if_pos rfl, Line.flatMap_marks, Line.text_of_isEmpty hl]
  rw [Writer.marks, List.flatMap_assoc, ← Writer.flatMap_lines hempty]
  have hshown (l : Line) (hl : l ∈ w.lines) : l.isEmpty = false := by
    simpa using (List.mem_filter.1 hl).2
  unfold Writer.finish
  generalize w.lines = ls at hshown ⊢
  match ls with
  | [] => rfl
  | [l] => simp [Line.flatMap_marks]
  | k :: l :: ls =>
      refine List.flatMap_congr fun l hl => ?_
      simp [hshown l hl, List.flatMap_cons, List.flatMap_append, Line.flatMap_marks]
      rfl

namespace Respelling

theorem foldl_respell {f : Token → Token} {α : Type} {g : α → α} {step : Writer → α → Writer}
    (hstep : ∀ w x, step (w.respell f) (g x) = (step w x).respell f) (w : Writer) (xs : List α) :
    (xs.map g).foldl step (w.respell f) = (xs.foldl step w).respell f := by
  induction xs generalizing w with
  | nil => rfl
  | cons x xs ih => rw [List.map_cons, List.foldl_cons, List.foldl_cons, hstep, ih]

variable {f : Token → Token} (hf : Respelling f)

include hf

theorem likeLast (t : Option Token) : Option.Rel LikeLast t (t.map f) := by
  cases t with
  | none => exact .none
  | some t => exact .some (hf t).likeLast

theorem piece_isEmpty (p : Piece) : (p.respell f).isEmpty = p.isEmpty := by
  cases p with
  | spaces n => rfl
  | token t =>
      rw [Bool.eq_iff_iff]
      simp only [Piece.respell, Piece.isEmpty, List.isEmpty_iff_length_eq_zero, (hf t).length]

theorem line_isEmpty (l : Line) : (l.respell f).isEmpty = l.isEmpty := by
  simp only [Line.respell, Line.isEmpty, List.all_map, Function.comp_def, hf.piece_isEmpty]

theorem line_width (l : Line) : (l.respell f).width = l.width := by
  have hpiece (p : Piece) : (p.respell f).width = p.width := by
    cases p with
    | spaces n => rfl
    | token t => exact (hf t).length
  simp only [Line.respell, Line.width, List.foldr_map, hpiece]

omit hf in
theorem line_push (l : Line) (p : Piece) :
    (l.push p).respell f = (l.respell f).push (p.respell f) := by
  simp [Line.respell, Line.push]

theorem newline (w : Writer) (depth : Nat) :
    (w.respell f).newline depth = (w.newline depth).respell f := by
  cases hi : w.inline with
  | true =>
      have hi' : (w.respell f).inline = true := hi
      rw [Writer.newline_inlined hi, Writer.newline_inlined hi']
  | false =>
      unfold Writer.newline
      cases hw : w.current with
      | none => simp [Writer.respell, hi, hw, Line.respell]
      | some l =>
          have hl := hf.line_isEmpty l
          cases hempty : l.isEmpty <;> simp_all [Writer.respell, Line.respell]

theorem settle (w : Writer) : (w.respell f).settle = w.settle.respell f := by
  have hnewline := hf.newline w w.continuation
  unfold Writer.settle
  cases hp : w.pendingBreak with
  | false => simp [Writer.respell, hp]
  | true => simpa [Writer.respell, hp] using hnewline

theorem push (w : Writer) (t : Token) :
    (w.respell f).push (f t) = (w.push t).respell f := by
  unfold Writer.push
  rw [hf.settle]
  generalize w.settle = w
  have hline : (w.respell f).current.getD {} = (w.current.getD {}).respell f := by
    simp only [Writer.respell]
    cases w.current <;> rfl
  have hspace : needsSpace (w.last.map f) w.lastUnary w.parenSpace (f t) =
      needsSpace w.last w.lastUnary w.parenSpace t :=
    needsSpace_congr (hf.likeLast w.last) (hf t).likeNext _ _
  have hunary : isUnary (f t) (w.last.map f) = isUnary t w.last := by
    rw [isUnary_eq, isUnary_eq, (hf t).isSign, allowsSign_congr (hf.likeLast w.last)]
  dsimp only
  rw [hline, hf.line_isEmpty, (hf t).isLineComment]
  simp only [Writer.respell, hspace, hunary, Option.map_some, line_push]
  split <;> simp [line_push, Piece.respell]

theorem pushAll (w : Writer) (ts : List Token) :
    (w.respell f).pushAll (ts.map f) = (w.pushAll ts).respell f := by
  induction ts generalizing w with
  | nil => rfl
  | cons t ts ih =>
      show ((w.respell f).push (f t)).pushAll (ts.map f) = _
      rw [hf.push, ih]
      rfl

theorem padTo (w : Writer) (n : Nat) : (w.respell f).padTo n = (w.padTo n).respell f := by
  unfold Writer.padTo
  cases hw : w.current with
  | none => simp [Writer.respell, hw]
  | some l =>
      simp only [Writer.currentWidth, Writer.respell, hw, Option.map_some, Option.getD_some,
        hf.line_width]
      split <;> simp [hw, line_push, Piece.respell]

omit hf in
theorem currentDepth (w : Writer) : (w.respell f).currentDepth = w.currentDepth := by
  simp only [Writer.currentDepth, Writer.respell]
  cases w.current <;> rfl

theorem marks (o : LayoutOptions) (w : Writer) :
    (w.respell f).marks o = (w.marks o).map (Sum.map id f) := by
  have hline (l : Line) : (l.respell f).marks = l.marks.map (Sum.map id f) := by
    simp only [Line.marks, Line.respell, List.map_map]
    refine List.map_congr_left fun p _ => ?_
    cases p <;> rfl
  have hall : (w.respell f).finished ++ (w.respell f).current.toList =
      (w.finished ++ w.current.toList).map (Line.respell f) := by
    rw [List.map_append, ← Option.toList_map]
    rfl
  have hlines : (w.respell f).lines.length = w.lines.length := by
    rw [Writer.lines, Writer.lines, hall, List.filter_map, List.length_map]
    simp only [Function.comp_def, hf.line_isEmpty]
  unfold Writer.marks
  rw [hall, hlines, List.flatMap_map, List.map_flatMap]
  refine List.flatMap_congr fun l _ => ?_
  rw [hf.line_isEmpty, hline]
  split <;> simp [Line.respell]

theorem length_finish (o : LayoutOptions) (w : Writer) :
    ((w.respell f).finish o).length = (w.finish o).length := by
  have hmark (m : Text ⊕ Token) : (markText o.keywordCase (Sum.map id f m)).length =
      (markText o.keywordCase m).length := by
    cases m with
    | inl g => rfl
    | inr t => simpa [markText, length_casedText] using (hf t).length
  rw [Writer.finish_eq_marks, Writer.finish_eq_marks, hf.marks, List.flatMap_map,
    List.length_flatMap, List.length_flatMap]
  simp only [hmark]

theorem length_inlineText (o : LayoutOptions) (ts : List Token) :
    (inlineText o (ts.map f)).length = (inlineText o ts).length := by
  have hwriter := hf.pushAll { inline := true } ts
  exact (congrArg (fun w => (w.finish o).length) hwriter).trans (hf.length_finish o _)

theorem tooWide (o : LayoutOptions) (depth : Nat) (ts : List Token) :
    tooWide o depth (ts.map f) = Layout.tooWide o depth ts := by
  rw [Layout.tooWide, Layout.tooWide, hf.length_inlineText]

theorem needsBreak (ts : List Token) : needsBreak (ts.map f) = Layout.needsBreak ts :=
  (hf.alike true ts).needsBreak

theorem endsInLineComment (item : ListItem) :
    (item.respell f).endsInLineComment = item.endsInLineComment :=
  (hf.alike true item.tokens).getLast?_isLineComment

theorem carriedComma (o : LayoutOptions) (item : ListItem) :
    carriedComma o (item.respell f) = (Layout.carriedComma o item).map f := by
  unfold Layout.carriedComma
  rw [hf.endsInLineComment]
  split
  · rfl
  · split <;> rfl

theorem alignedAlias? (o : LayoutOptions) (kind : ClauseKind) (item : ListItem) :
    alignedAlias? o kind (item.respell f) = Layout.alignedAlias? o kind item := by
  unfold Layout.alignedAlias? aliasPosition? ListItem.respell
  dsimp only
  rw [hf.aliasFrom?_map]
  simp only [← List.map_take, hf.needsBreak]

theorem rowsAfter (o : LayoutOptions) (kind : ClauseKind) (leading : Option Token)
    (items : List ListItem) :
    rowsAfter o kind (leading.map f) (items.map (ListItem.respell f)) =
      (Layout.rowsAfter o kind leading items).map (Row.respell f) := by
  induction items generalizing leading with
  | nil => rfl
  | cons item items ih =>
      rw [List.map_cons, rowsAfter_cons, rowsAfter_cons, hf.carriedComma, ih, hf.alignedAlias?]
      rfl

theorem aliasColumn? (o : LayoutOptions) (row : Row) :
    (row.respell f).aliasColumn? o = row.aliasColumn? o := by
  unfold Row.aliasColumn? Row.respell ListItem.respell
  cases row.aliasAt with
  | none => rfl
  | some n =>
      simp only [Option.map_some, ← List.map_take, Option.toList_map, ← List.map_append,
        hf.length_inlineText]

end Respelling

def QueryWriter.Commutes (f : Token → Token) (query : QueryWriter) : Prop :=
  ∀ w ts depth, query (w.respell f) (ts.map f) depth = (query w ts depth).respell f

namespace Respelling

section

variable {f : Token → Token} (hf : Respelling f) {query : QueryWriter} (hq : query.Commutes f)

include hf hq

theorem writeGroup (depth : Nat) (w : Writer) (t : Token) (r : List Token) :
    writeGroup query depth (w.respell f) (f t) (r.map f) =
      (Layout.writeGroup query depth w t r).respell f := by
  unfold Layout.writeGroup
  dsimp only
  rw [hf.push, currentDepth, hf.groupTokens_map, hq, hf.newline]
  rfl

theorem writeRun (depth : Nat) (w : Writer) (ts : List Token) :
    writeRun query depth (w.respell f) (ts.map f) =
      (Layout.writeRun query depth w ts).respell f := by
  have hsame {t : Token} {r : List Token} : opensQuery (f t) (r.map f) = opensQuery t r := by
    rw [opensQuery, opensQuery, (hf t).isPunct, hf.groupTokens_map, hf.isSubquery_map]
  have hbehind {r : List Token} :
      (r.map f).drop (groupLength 1 (r.map f)) = (r.drop (groupLength 1 r)).map f := by
    rw [hf.groupLength_map, List.map_drop]
  induction ts using run_induction generalizing w with
  | nil => rw [List.map_nil, Layout.writeRun, Layout.writeRun]
  | token t r hopen ih =>
      rw [List.map_cons, writeRun_token query depth _ (hsame.trans hopen),
        writeRun_token query depth w hopen, hf.push]
      exact ih _
  | unclosed t r hopen hdrop =>
      rw [List.map_cons,
        writeRun_open query depth _ (hsame.trans hopen) (by rw [hbehind, hdrop]; rfl),
        writeRun_open query depth w hopen hdrop, hf.writeGroup hq]
  | group t r close rest hopen hdrop ih =>
      rw [List.map_cons, writeRun_group query depth _ (hsame.trans hopen)
        (hbehind.trans (congrArg (List.map f) hdrop)), writeRun_group query depth w hopen hdrop,
        hf.writeGroup hq, hf.push]
      exact ih _

theorem writeTokens (depth : Nat) (w : Writer) (ts : List Token) :
    writeTokens query depth (w.respell f) (ts.map f) =
      (Layout.writeTokens query depth w ts).respell f :=
  hf.writeRun hq depth (w.setContinuation depth) ts

theorem writeItem (depth column : Nat) (w : Writer) (ts : List Token) (n : Option Nat) :
    writeItem query depth column (w.respell f) (ts.map f) n =
      (Layout.writeItem query depth column w ts n).respell f := by
  cases n with
  | none => exact hf.writeTokens hq depth w ts
  | some n =>
      dsimp only [Layout.writeItem]
      rw [← List.map_take, ← List.map_drop, hf.writeTokens hq, hf.padTo, hf.writeTokens hq]

theorem writeRow (o : LayoutOptions) (depth column : Nat) (w : Writer) (row : Row) :
    writeRow o query depth column (w.respell f) (row.respell f) =
      (Layout.writeRow o query depth column w row).respell f := by
  have hcomma : (if o.commaPosition = .trailing && !row.item.endsInLineComment then
        (row.item.comma.map f).toList else []) =
      (if o.commaPosition = .trailing && !row.item.endsInLineComment then
        row.item.comma.toList else []).map f := by
    split
    · exact Option.toList_map ..
    · rfl
  rw [writeRow_eq, writeRow_eq, ← hf.pushAll, ← hf.writeItem hq, ← hf.pushAll, ← hf.newline,
    ← hcomma, ← Option.toList_map, ← hf.endsInLineComment row.item]
  rfl

theorem writeCondition (depth : Nat) (w : Writer) (c : Condition) :
    writeCondition query depth (w.respell f) (c.respell f) =
      (Layout.writeCondition query depth w c).respell f := by
  unfold Layout.writeCondition Condition.respell
  cases c.op with
  | none => exact hf.writeTokens hq depth w c.tokens
  | some op =>
      dsimp only [Option.map_some]
      rw [hf.newline, hf.push, hf.writeTokens hq]

theorem writeCommonTable (depth : Nat) (w : Writer) (item : ListItem) :
    writeCommonTable query depth (w.respell f) (item.respell f) =
      (Layout.writeCommonTable query depth w item).respell f := by
  unfold Layout.writeCommonTable
  rw [← hf.pushAll, ← hf.writeTokens hq, ← Option.toList_map]
  rfl

theorem writeCommonTables (depth : Nat) (w : Writer) (c : Clause) :
    writeCommonTables query depth (w.respell f) (c.respell f) =
      (Layout.writeCommonTables query depth w c).respell f := by
  have hitems : splitList (c.respell f).body = (splitList c.body).map (ListItem.respell f) :=
    hf.itemsFrom_map 0 c.body
  unfold Layout.writeCommonTables
  rw [hitems]
  cases splitList c.body with
  | nil => rfl
  | cons item items =>
      simp only [List.map_cons, hf.writeCommonTable hq]
      refine foldl_respell (fun w item => ?_) _ items
      rw [hf.newline, hf.writeCommonTable hq]

end

section

variable {f : Token → Token} (hf : Respelling f) (o : LayoutOptions) {query : QueryWriter}
  (hq : query.Commutes f)

include hf

omit hf in
theorem clause_tokens (c : Clause) : (c.respell f).tokens = c.tokens.map f :=
  List.map_append.symm

theorem splitsList (depth : Nat) (c : Clause) :
    splitsList o depth (c.respell f) = Layout.splitsList o depth c := by
  have hitems : splitList (c.respell f).body = (splitList c.body).map (ListItem.respell f) :=
    hf.itemsFrom_map 0 c.body
  unfold Layout.splitsList
  rw [hitems, List.length_map, clause_tokens, hf.tooWide]
  simp only [Clause.respell, hf.needsBreak]
  rfl

theorem splitsConditions (depth : Nat) (c : Clause) :
    splitsConditions o depth (c.respell f) = Layout.splitsConditions o depth c := by
  have hlinks : splitConditions (c.respell f).body =
      (splitConditions c.body).map (Condition.respell f) := hf.conditionsFrom_map {} c.body
  unfold Layout.splitsConditions
  rw [hlinks, List.length_map, clause_tokens, hf.tooWide]
  simp only [Clause.respell, hf.needsBreak, hf.length_inlineText]

include hq

theorem writeList (depth : Nat) (w : Writer) (c : Clause) :
    writeList o query depth (w.respell f) (c.respell f) =
      (Layout.writeList o query depth w c).respell f := by
  have hrows : rows o c.kind (splitList (c.respell f).body) =
      (rows o c.kind (splitList c.body)).map (Row.respell f) := by
    rw [splitList, Clause.respell, hf.itemsFrom_map]
    exact hf.rowsAfter o c.kind none _
  unfold Layout.writeList
  rw [hf.splitsList]
  split
  · dsimp only
    rw [show (c.respell f).kind = c.kind from rfl, hrows, List.filterMap_map]
    simp only [Function.comp_def, hf.aliasColumn?]
    exact foldl_respell (hf.writeRow hq o _ _) w _
  · exact hf.writeTokens hq _ w c.body

theorem writeConditions (depth : Nat) (w : Writer) (c : Clause) :
    writeConditions o query depth (w.respell f) (c.respell f) =
      (Layout.writeConditions o query depth w c).respell f := by
  have hlinks : splitConditions (c.respell f).body =
      (splitConditions c.body).map (Condition.respell f) := hf.conditionsFrom_map {} c.body
  unfold Layout.writeConditions
  rw [hf.splitsConditions, hlinks]
  split
  · exact foldl_respell (hf.writeCondition hq _) w _
  · exact hf.writeTokens hq _ w c.body

theorem writeClause (depth : Nat) (w : Writer) (c : Clause) :
    writeClause o query depth (w.respell f) (c.respell f) =
      (Layout.writeClause o query depth w c).respell f := by
  have hhead := hf.pushAll (((w.newline depth).setContinuation (depth + 1)).setParenSpace
    (c.kind = .insertInto)) c.head
  have hopen : (((w.respell f).newline depth).setContinuation (depth + 1)).setParenSpace
      ((c.respell f).kind = .insertInto) =
        (((w.newline depth).setContinuation (depth + 1)).setParenSpace
          (c.kind = .insertInto)).respell f := by
    rw [hf.newline]
    rfl
  unfold Layout.writeClause
  dsimp only
  rw [hopen, show (c.respell f).head = c.head.map f from rfl, hhead]
  show (if c.kind.isList then _ else if c.kind.isCondition then _ else
    if c.kind = .commonTables then _ else _) = _
  split
  · exact hf.writeList o hq depth _ c
  · split
    · exact hf.writeConditions o hq depth _ c
    · split
      · exact hf.writeCommonTables hq depth _ c
      · exact hf.writeTokens hq _ _ c.body

end

section

variable {f : Token → Token} (hf : Respelling f) (o : LayoutOptions)

include hf

theorem writeQuery (nesting : Nat) : (writeQuery o nesting).Commutes f := by
  induction nesting with
  | zero => exact fun w ts _ => hf.pushAll w ts
  | succ nesting ih =>
      intro w ts depth
      rw [Layout.writeQuery, Layout.writeQuery, hf.splitClauses_map]
      exact foldl_respell (hf.writeClause o ih depth) w _

theorem writeStatements (ss : List (List Token)) :
    writeStatements o (ss.map (List.map f)) = (Layout.writeStatements o ss).respell f := by
  refine foldl_respell (fun w s => ?_) {} ss
  rw [List.length_map, hf.writeQuery]

theorem lineWriter (ts : List Token) :
    lineWriter (ts.map f) = (Layout.lineWriter ts).respell f := by
  unfold Layout.lineWriter
  rw [hf.splitClauses_map]
  refine foldl_respell (fun w c => ?_) { inline := true } _
  rw [clause_tokens, ← hf.pushAll]
  rfl

end

end Respelling

def layoutWriter (o : LayoutOptions) (statements : List (List Token)) : Writer :=
  match statements with
  | [only] => if (singleLine? o only).isSome then lineWriter only else writeStatements o [only]
  | _ => writeStatements o statements

theorem singleLine?_eq {o : LayoutOptions} {ts : List Token} {t : Text}
    (h : singleLine? o ts = some t) : t = (lineWriter ts).finish o := by
  unfold singleLine? at h
  split at h
  · cases h
  · dsimp only at h
    split at h
    · exact (Option.some.inj h).symm
    · cases h

theorem format_eq_finish (o : LayoutOptions) (ts : List Token) :
    format o ts =
      (layoutWriter o (splitStatements (ts.filter Token.isSignificant))).finish o := by
  unfold format
  dsimp only
  generalize splitStatements (ts.filter Token.isSignificant) = ss
  match ss with
  | [] => rfl
  | [s] =>
      dsimp only [layoutWriter]
      cases hline : singleLine? o s with
      | none => rfl
      | some t => exact singleLine?_eq hline
  | _ :: _ :: _ => rfl

theorem layoutWriter_writes (o : LayoutOptions) (ss : List (List Token)) :
    ∃ inline, Writes { inline := inline } ss.flatten (layoutWriter o ss) := by
  unfold layoutWriter
  split
  next s =>
    split
    · exact ⟨true, by simpa using lineWriter_writes s⟩
    · exact ⟨false, writeStatements_writes o [s]⟩
  · exact ⟨false, writeStatements_writes o ss⟩

theorem Respelling.layoutWriter {f : Token → Token} (hf : Respelling f) (o : LayoutOptions)
    (ss : List (List Token)) :
    layoutWriter o (ss.map (List.map f)) = (Layout.layoutWriter o ss).respell f := by
  have hline (s : List Token) : (singleLine? o (s.map f)).isSome = (singleLine? o s).isSome := by
    have hlength : (lineText o (s.map f)).length = (lineText o s).length := by
      show ((Layout.lineWriter (s.map f)).finish o).length = _
      rw [hf.lineWriter, hf.length_finish]
      rfl
    unfold singleLine?
    rw [(hf.alike true s).any_forcesBreak]
    simp only [hlength]
    split
    · rfl
    · split <;> rfl
  match ss with
  | [] => rfl
  | [s] =>
      show (if (singleLine? o (s.map f)).isSome then _ else _) =
        (if (singleLine? o s).isSome then _ else _ : Writer).respell f
      rw [hline]
      split
      · exact hf.lineWriter s
      · exact hf.writeStatements o [s]
  | r :: s :: ss => exact hf.writeStatements o (r :: s :: ss)

end EmbeddedSql.Layout
