import EmbeddedSql.Layout.Query
import EmbeddedSql.Proofs.Layout.Inlining

namespace EmbeddedSql.Layout

/-- Among the lines stand the queries in parentheses of the tokens, in their order. Each stands as
`Query` says right behind the line that its opening parenthesis ends, and one level below it. -/
inductive Enclosed (Query : Nat → List Token → List Line → Prop) : List Token → List Line → Prop
  | nil : Enclosed Query [] []
  | line (l : Line) {ts ls} : Enclosed Query ts ls → Enclosed Query ts (l :: ls)
  | token {t r ls} : opensQuery t r = false → Enclosed Query r ls → Enclosed Query (t :: r) ls
  | query (l : Line) {t r inner ls} : opensQuery t r = true →
      l.pieces.getLast? = some (.token t) → Query (l.depth + 1) (groupTokens r) inner →
      Enclosed Query (r.drop (groupLength 1 r)) ls → Enclosed Query (t :: r) (l :: (inner ++ ls))

def tokensOn (ls : List Line) : List Token := (ls.flatMap Line.spots).map Spot.token

def shown (ts : List Token) : List Token := ts.filter fun t => !t.text.isEmpty

/-- Clauses at level `depth` on lines of their own, of which each that is kept together has one, and
likewise the clauses of every query in parentheses among them. -/
inductive Measured (o : LayoutOptions) : Nat → List Clause → List Line → Prop
  | nil {depth} : Measured o depth [] []
  | cons {depth c cs ls ls'} :
      Enclosed (fun level ts inner => Measured o level (splitClauses ts) inner) c.tokens ls →
      tokensOn ls = shown c.tokens → (KeptTogether o depth c → OnOneLine o depth c ls) →
      Measured o depth cs ls' → Measured o depth (c :: cs) (ls ++ ls')

def MeasuredQuery (o : LayoutOptions) (depth : Nat) (ts : List Token) (ls : List Line) : Prop :=
  Measured o depth (splitClauses ts) ls

theorem tokensOn_append (ls ls' : List Line) :
    tokensOn (ls ++ ls') = tokensOn ls ++ tokensOn ls' := by
  rw [tokensOn, List.flatMap_append, List.map_append]
  rfl

theorem shown_append (ts us : List Token) : shown (ts ++ us) = shown ts ++ shown us :=
  List.filter_append ts us

theorem Measured.tokensOn_eq {o : LayoutOptions} {depth : Nat} {cs : List Clause} {ls : List Line}
    (h : Measured o depth cs ls) : tokensOn ls = shown (cs.flatMap Clause.tokens) := by
  induction cs generalizing ls with
  | nil => cases h; rfl
  | cons c cs ih =>
      cases h with
      | cons henclosed htokens hkept hrest =>
          rw [tokensOn_append, htokens, ih hrest, List.flatMap_cons, shown_append]

namespace Enclosed

variable {Query : Nat → List Token → List Line → Prop} {ts : List Token} {ls : List Line}

theorem behind (h : Enclosed Query ts ls) (above : List Line) :
    Enclosed Query ts (above ++ ls) := by
  induction above with
  | nil => exact h
  | cons l above ih => exact .line l ih

theorem before (h : Enclosed Query ts ls) (below : List Line) :
    Enclosed Query ts (ls ++ below) := by
  induction h with
  | nil => simpa using nil.behind below
  | line l _ ih => exact .line l ih
  | token hopen _ ih => exact .token hopen ih
  | query l hopen hlast hquery _ ih =>
      rw [List.cons_append, List.append_assoc]
      exact .query l hopen hlast hquery ih

end Enclosed

namespace Writer

theorem exists_lines_eq (w : Writer) : ∃ ls, w.lines = w.done ++ ls :=
  ⟨_, List.filter_append _ _⟩

theorem exists_done_push {w : Writer} (h : w.inline = false) (t : Token) :
    ∃ ls, (w.push t).done = w.done ++ ls := by
  show ∃ ls, w.settle.done = w.done ++ ls
  unfold settle
  split
  next =>
    rw [done_newline h]
    exact exists_lines_eq w
  next => exact ⟨[], by simp⟩

theorem exists_lines_push (w : Writer) {t : Token} (ht : t.text.isEmpty = false) :
    ∃ l, (w.push t).lines = (w.push t).done ++ [l] ∧ l.depth = (w.push t).currentDepth ∧
      l.pieces.getLast? = some (.token t) := by
  obtain ⟨l, hl⟩ : ∃ l : Line, (w.push t).current = some (l.push (.token t)) := ⟨_, rfl⟩
  refine ⟨l.push (.token t), ?_, ?_, ?_⟩
  · exact lines_of_current hl (by simp [Piece.isEmpty, ht])
  · rw [currentDepth, hl]
    rfl
  · exact List.getLast?_concat

theorem tokensOn_push (w : Writer) (t : Token) :
    tokensOn (w.push t).lines = tokensOn w.lines ++ shown [t] := by
  have hspots := congrArg (List.map Spot.token) (spots_push w t)
  rw [List.map_append] at hspots
  refine hspots.trans (congrArg _ ?_)
  cases ht : t.text.isEmpty <;> simp [shown, ht, place]

theorem tokensOn_of_spots {w w' : Writer} (h : w'.spots = w.spots) :
    tokensOn w'.lines = tokensOn w.lines :=
  congrArg (List.map Spot.token) h

end Writer

theorem length_groupTokens_le (r : List Token) : (groupTokens r).length ≤ r.length :=
  (List.take_sublist _ r).length_le

structure Fills (o : LayoutOptions) (w : Writer) (ts : List Token) (w' : Writer) : Prop where
  inline : w'.inline = false
  done : ∃ ls, Enclosed (MeasuredQuery o) ts ls ∧ w'.done = w.done ++ ls
  tokens : tokensOn w'.lines = tokensOn w.lines ++ shown ts

def QueryWriter.MeasuresUpTo (o : LayoutOptions) (n : Nat) (query : QueryWriter) : Prop :=
  ∀ w ts level, ts.length ≤ n → w.inline = false →
    (query w ts level).inline = false ∧
      ∃ ls, MeasuredQuery o level ts ls ∧ (query w ts level).lines = w.lines ++ ls

section

variable {o : LayoutOptions} {w w₁ w' : Writer} {ts : List Token}

theorem Fills.after (h : Fills o w₁ ts w') (hdone : ∃ ls, w₁.done = w.done ++ ls)
    (hspots : w₁.spots = w.spots) : Fills o w ts w' where
  inline := h.inline
  done := by
    obtain ⟨above, habove⟩ := hdone
    obtain ⟨ls, henclosed, hls⟩ := h.done
    exact ⟨above ++ ls, henclosed.behind above, by rw [hls, habove, List.append_assoc]⟩
  tokens := by rw [h.tokens, Writer.tokensOn_of_spots hspots]

theorem Fills.token {t : Token} (h : Fills o (w.push t) ts w') (hw : w.inline = false)
    (hopen : opensQuery t ts = false) : Fills o w (t :: ts) w' where
  inline := h.inline
  done := by
    obtain ⟨above, habove⟩ := Writer.exists_done_push hw t
    obtain ⟨ls, henclosed, hls⟩ := h.done
    exact ⟨above ++ ls, (henclosed.token hopen).behind above,
      by rw [hls, habove, List.append_assoc]⟩
  tokens := by
    rw [h.tokens, Writer.tokensOn_push, List.append_assoc, ← shown_append, List.singleton_append]

theorem Fills.group {query : QueryWriter} {n : Nat} (hq : query.MeasuresUpTo o n) {t : Token}
    {r : List Token} (hr : r.length ≤ n) (hw : w.inline = false) (hopen : opensQuery t r = true)
    (h : Fills o ((query (w.push t) (groupTokens r) ((w.push t).currentDepth + 1)).newline
      (w.push t).currentDepth) (r.drop (groupLength 1 r)) w') : Fills o w (t :: r) w' := by
  have hlength := (length_groupTokens_le r).trans hr
  have hpush : (w.push t).inline = false := by rw [Writer.push_inline, hw]
  obtain ⟨hinline, inner, hmeasured, hinner⟩ :=
    hq (w.push t) (groupTokens r) ((w.push t).currentDepth + 1) hlength hpush
  obtain ⟨l, hlines, hdepth, hlast⟩ :=
    w.exists_lines_push (isEmpty_of_isPunct (isPunct_of_opensQuery hopen))
  obtain ⟨above, habove⟩ := Writer.exists_done_push hw t
  obtain ⟨ls, henclosed, hls⟩ := h.done
  refine ⟨h.inline, ⟨above ++ l :: (inner ++ ls), ?_, ?_⟩, ?_⟩
  · refine (Enclosed.query l hopen hlast ?_ henclosed).behind above
    rwa [hdepth]
  · rw [hls, Writer.done_newline hinline, hinner, hlines, habove]
    simp only [List.append_assoc, List.cons_append, List.nil_append]
  · have htokens := hmeasured.tokensOn_eq
    rw [splitClauses_tokens] at htokens
    rw [h.tokens, Writer.tokensOn_of_spots (Writer.spots_newline _ _), hinner, tokensOn_append,
      htokens, Writer.tokensOn_push, List.append_assoc, List.append_assoc, ← shown_append,
      groupTokens_append, ← shown_append, List.singleton_append]

theorem Runs.fills {query : QueryWriter} {n : Nat} (hq : query.MeasuresUpTo o n)
    (h : Runs query w ts w') (hts : ts.length ≤ n + 1) (hw : w.inline = false) :
    Fills o w ts w' := by
  induction h with
  | refl => exact ⟨hw, ⟨[], .nil, (List.append_nil _).symm⟩, (List.append_nil _).symm⟩
  | @token w t r w' hopen _ ih =>
      rw [List.length_cons] at hts
      exact (ih (by omega) (by rw [Writer.push_inline, hw])).token hw hopen
  | @group w t r w' hopen _ ih =>
      rw [List.length_cons] at hts
      refine .group hq (by omega) hw hopen (ih ?_ ?_)
      · rw [List.length_drop]
        omega
      · rw [Writer.newline_inline]
        exact (hq _ _ _ ((length_groupTokens_le r).trans (by omega))
          (by rw [Writer.push_inline, hw])).1
  | @newline w ts w' depth _ ih =>
      refine (ih hts (by rw [Writer.newline_inline, hw])).after ?_ (Writer.spots_newline w depth)
      rw [Writer.done_newline hw]
      exact w.exists_lines_eq
  | continuation depth _ ih => exact (ih hts hw).after ⟨[], (List.append_nil _).symm⟩ rfl
  | @pad w ts w' width _ ih =>
      refine (ih hts (by rw [Writer.padTo_inline, hw])).after ⟨[], ?_⟩ (Writer.spots_padTo w width)
      rw [List.append_nil]
      rcases Writer.padTo_eq w width with hpad | ⟨l, k, -, -, hpad⟩ <;> rw [hpad]
      rfl

end

section

variable {o : LayoutOptions} {n : Nat} {query : QueryWriter} (hq : query.MeasuresUpTo o n)
  {ts : List Token}

include hq

theorem writeClause_measured (depth : Nat) {w : Writer} {c : Clause} (hw : w.inline = false)
    (hts : ts.length ≤ n + 1) (hc : c ∈ splitClauses ts) :
    (writeClause o query depth w c).inline = false ∧
      ∃ ls, (writeClause o query depth w c).lines = w.lines ++ ls ∧
        Enclosed (MeasuredQuery o) c.tokens ls ∧ tokensOn ls = shown c.tokens ∧
        (KeptTogether o depth c → OnOneLine o depth c ls) := by
  have hinline : (w.beginClause depth c).inline = false := (w.newline_inline depth).trans hw
  have hlength := length_le_of_parts (splitClauses_tokens ts) hc
  have hruns := writeClause_runs o query depth w (splitClauses_keyed ts c hc)
  have hfills := hruns.fills hq (hlength.trans hts) hinline
  obtain ⟨ls, henclosed, hls⟩ := hfills.done
  obtain ⟨below, hbelow⟩ := (writeClause o query depth w c).exists_lines_eq
  have hlines : (writeClause o query depth w c).lines = w.lines ++ (ls ++ below) := by
    rw [hbelow, hls, Writer.done_beginClause hw, List.append_assoc]
  refine ⟨hfills.inline, ls ++ below, hlines, henclosed.before below, ?_, fun hkept => ?_⟩
  · have htokens := hfills.tokens
    have hbegin : tokensOn (w.beginClause depth c).lines = tokensOn w.lines :=
      Writer.tokensOn_of_spots (Writer.spots_newline w depth)
    rw [hlines, tokensOn_append, hbegin] at htokens
    exact List.append_cancel_left htokens
  · obtain ⟨ls', hlines', hone⟩ := hkept.onOneLine hc query hw
    rwa [List.append_cancel_left (hlines.symm.trans hlines')]

theorem clauses_measured (depth : Nat) {w : Writer} {cs : List Clause} (hw : w.inline = false)
    (hts : ts.length ≤ n + 1) (hcs : ∀ c ∈ cs, c ∈ splitClauses ts) :
    (cs.foldl (writeClause o query depth) w).inline = false ∧
      ∃ ls, Measured o depth cs ls ∧
        (cs.foldl (writeClause o query depth) w).lines = w.lines ++ ls := by
  induction cs generalizing w with
  | nil => exact ⟨hw, [], .nil, (List.append_nil _).symm⟩
  | cons c cs ih =>
      obtain ⟨hc, hrest⟩ := List.forall_mem_cons.1 hcs
      obtain ⟨hinline, ls, hls, henclosed, htokens, hkept⟩ :=
        writeClause_measured hq depth hw hts hc
      obtain ⟨hinline', ls', hmeasured, hls'⟩ := ih hinline hrest
      refine ⟨hinline', ls ++ ls', .cons henclosed htokens hkept hmeasured, ?_⟩
      rw [List.foldl_cons, hls', hls, List.append_assoc]

end

theorem writeQuery_measures (o : LayoutOptions) (n : Nat) : (writeQuery o n).MeasuresUpTo o n := by
  induction n with
  | zero =>
      intro w ts level hts hw
      obtain rfl := List.length_eq_zero_iff.1 (Nat.le_zero.1 hts)
      refine ⟨hw, [], ?_, (List.append_nil _).symm⟩
      rw [MeasuredQuery, splitClauses_nil]
      exact .nil
  | succ n ih =>
      intro w ts level hts hw
      rw [writeQuery]
      exact clauses_measured ih level hw hts fun _ hc => hc

theorem writeStatements_measures (o : LayoutOptions) (statements : List (List Token)) :
    ∃ blocks, List.Forall₂ (MeasuredQuery o 0) statements blocks ∧
      (writeStatements o statements).lines = blocks.flatten := by
  have hall (statements : List (List Token)) {w : Writer} (hw : w.inline = false) :
      ∃ blocks, List.Forall₂ (MeasuredQuery o 0) statements blocks ∧
        (statements.foldl (fun w s => writeQuery o s.length w s 0) w).lines =
          w.lines ++ blocks.flatten := by
    induction statements generalizing w with
    | nil => exact ⟨[], .nil, by simp⟩
    | cons s statements ih =>
        obtain ⟨hinline, ls, hmeasured, hls⟩ :=
          writeQuery_measures o s.length w s 0 (Nat.le_refl _) hw
        obtain ⟨blocks, hblocks, hrest⟩ := ih hinline
        refine ⟨ls :: blocks, .cons hmeasured hblocks, ?_⟩
        rw [List.foldl_cons, hrest, hls, List.flatten_cons, List.append_assoc]
  exact hall statements (w := {}) rfl

theorem format_measured (o : LayoutOptions) (ts : List Token) :
    let statements := splitStatements (ts.filter Token.isSignificant)
    let w := writeStatements o statements
    (format o ts = w.finish o ∨
      ∃ only, statements = [only] ∧ singleLine? o only = some (format o ts)) ∧
    ∃ blocks, List.Forall₂ (MeasuredQuery o 0) statements blocks ∧ w.lines = blocks.flatten := by
  refine ⟨?_, writeStatements_measures o _⟩
  unfold format
  generalize splitStatements (ts.filter Token.isSignificant) = statements
  dsimp only
  split
  next line hline =>
    split at hline
    next only => exact .inr ⟨only, rfl, hline⟩
    next => cases hline
  next => exact .inl rfl

example :
    let o : LayoutOptions := { lineLength := 30 }
    let sql := "select a from (select x from t where x = 1 and y <> 2) s".toList
    let ts := (Vocabulary.tokenize {} sql).filter Token.isSignificant
    (splitClauses ts).map (fun c => decide (KeptTogether o 0 c)) = [true, false] ∧
      (writeStatements o [ts]).lines.map (fun l => (l.depth, String.ofList (l.text .upper))) =
        [(0, "SELECT a"), (0, "FROM ("), (1, "SELECT x"), (1, "FROM t"),
          (1, "WHERE x = 1 AND y <> 2"), (0, ") s")] := by
  decide +kernel

end EmbeddedSql.Layout
