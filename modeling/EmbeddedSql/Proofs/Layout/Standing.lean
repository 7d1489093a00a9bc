import EmbeddedSql.Proofs.Layout.Writing

namespace EmbeddedSql.Layout

structure Spot where
  token : Token
  depth : Nat
  leads : Bool
  deriving DecidableEq, Repr

def Piece.spot? (depth : Nat) (leads : Bool) : Piece → Option Spot
  | .spaces _ => none
  | .token t => if t.text.isEmpty then none else some ⟨t, depth, leads⟩

def spotsFrom (depth : Nat) (leads : Bool) : List Piece → List Spot
  | [] => []
  | p :: r => (p.spot? depth leads).toList ++ spotsFrom depth (leads && p.isEmpty) r

theorem spotsFrom_concat (depth : Nat) (leads : Bool) (ps : List Piece) (p : Piece) :
    spotsFrom depth leads (ps ++ [p]) =
      spotsFrom depth leads ps ++ (p.spot? depth (leads && ps.all Piece.isEmpty)).toList := by
  induction ps generalizing leads with
  | nil => simp [spotsFrom]
  | cons q ps ih => simp [spotsFrom, ih, Bool.and_assoc]

namespace Line

def spots (l : Line) : List Spot := spotsFrom l.depth true l.pieces

theorem spots_push (l : Line) (p : Piece) :
    (l.push p).spots = l.spots ++ (p.spot? l.depth l.isEmpty).toList := by
  rw [spots, push, spotsFrom_concat, Bool.true_and]
  rfl

theorem spots_push_token (l : Line) (b : Bool) (t : Token) :
    ((if b && !l.isEmpty then l.push (.spaces 1) else l).push (.token t)).spots =
      l.spots ++ (Piece.spot? l.depth l.isEmpty (.token t)).toList := by
  split
  next hspace =>
    have hl : l.isEmpty = false := by simpa using (Bool.and_eq_true_iff.1 hspace).2
    rw [spots_push, spots_push, push_isEmpty, hl]
    simp [Piece.spot?, push]
  next => rw [spots_push]

theorem spotsFrom_of_isEmpty (depth : Nat) (leads : Bool) {ps : List Piece}
    (h : ps.all Piece.isEmpty = true) : spotsFrom depth leads ps = [] := by
  induction ps generalizing leads with
  | nil => rfl
  | cons p ps ih =>
      obtain ⟨hp, hps⟩ := Bool.and_eq_true_iff.1 h
      have hspot : p.spot? depth leads = none := by
        cases p with
        | spaces n => rfl
        | token t => simpa [Piece.spot?, Piece.isEmpty] using hp
      rw [spotsFrom, hspot, ih _ hps]
      rfl

theorem spots_of_isEmpty {l : Line} (h : l.isEmpty = true) : l.spots = [] :=
  spotsFrom_of_isEmpty l.depth true h

end Line

namespace Writer

def spots (w : Writer) : List Spot := w.lines.flatMap Line.spots

theorem spots_eq (w : Writer) :
    w.spots = (w.finished ++ w.current.toList).flatMap Line.spots :=
  flatMap_lines fun _ hl => Line.spots_of_isEmpty hl

theorem spots_newline (w : Writer) (depth : Nat) : (w.newline depth).spots = w.spots := by
  cases h : w.inline with
  | true => rw [newline_inlined h]
  | false =>
      obtain ⟨finished, line, hn, hempty, -, hlines⟩ := newline_eq h depth
      rw [hn, spots, spots, lines, List.filter_append]
      simp [hlines, hempty]

theorem spots_settle (w : Writer) : w.settle.spots = w.spots := by
  unfold settle
  split
  · exact spots_newline w _
  · rfl

theorem spots_padTo (w : Writer) (n : Nat) : (w.padTo n).spots = w.spots := by
  rcases padTo_eq w n with h | ⟨l, k, hl, -, h⟩
  · rw [h]
  · rw [h, spots_eq, spots_eq, hl]
    simp [Line.spots_push, Piece.spot?]

def place (w : Writer) (t : Token) : Spot :=
  ⟨t, w.settle.currentDepth, (w.settle.current.getD {}).isEmpty⟩

theorem currentDepth_eq (w : Writer) : w.currentDepth = (w.current.getD {}).depth := by
  unfold currentDepth
  cases w.current <;> rfl

theorem spots_push (w : Writer) (t : Token) :
    (w.push t).spots = w.spots ++ if t.text.isEmpty then [] else [w.place t] := by
  rw [← spots_settle w, spots_eq, spots_eq, push, place, currentDepth_eq]
  generalize w.settle = w
  have hspots : w.current.toList.flatMap Line.spots = (w.current.getD {}).spots := by
    cases w.current <;> simp [Line.spots, spotsFrom]
  rw [List.flatMap_append, List.flatMap_append, hspots, Option.toList_some,
    List.flatMap_singleton, Line.spots_push_token, Piece.spot?, List.append_assoc]
  cases t.text.isEmpty <;> rfl

theorem currentDepth_newline {w : Writer} (h : w.inline = false) (depth : Nat) :
    (w.newline depth).currentDepth = depth := by
  obtain ⟨finished, line, hn, -, hdepth, -⟩ := newline_eq h depth
  rw [hn]
  exact hdepth

theorem currentDepth_push (w : Writer) (t : Token) :
    (w.push t).currentDepth = w.settle.currentDepth := by
  rw [push, currentDepth, currentDepth_eq]
  dsimp only [Option.map_some, Option.getD_some]
  split <;> rfl

theorem currentDepth_padTo (w : Writer) (n : Nat) : (w.padTo n).currentDepth = w.currentDepth := by
  rcases padTo_eq w n with h | ⟨l, k, hl, -, h⟩
  · rw [h]
  · rw [h, currentDepth, currentDepth, hl]
    rfl

theorem continuation_newline (w : Writer) (depth : Nat) :
    (w.newline depth).continuation = w.continuation := by
  cases h : w.inline with
  | true => rw [newline_inlined h]
  | false => obtain ⟨_, _, hn, _⟩ := newline_eq h depth; rw [hn]

theorem continuation_push (w : Writer) (t : Token) :
    (w.push t).continuation = w.continuation := by
  show w.settle.continuation = w.continuation
  unfold settle
  split
  · exact continuation_newline w _
  · rfl

theorem continuation_padTo (w : Writer) (n : Nat) :
    (w.padTo n).continuation = w.continuation := by
  rcases padTo_eq w n with h | ⟨l, k, -, -, h⟩ <;> rw [h]

structure Within (depth : Nat) (w : Writer) : Prop where
  inline : w.inline = false
  current : depth ≤ w.currentDepth
  continuation : depth ≤ w.continuation

namespace Within

variable {depth : Nat} {w : Writer}

theorem mono (h : w.Within depth) {level : Nat} (hle : level ≤ depth) : w.Within level :=
  ⟨h.inline, Nat.le_trans hle h.current, Nat.le_trans hle h.continuation⟩

theorem settle (h : w.Within depth) : depth ≤ w.settle.currentDepth := by
  unfold Writer.settle
  split
  · rw [currentDepth_newline h.inline]
    exact h.continuation
  · exact h.current

theorem push (h : w.Within depth) (t : Token) : (w.push t).Within depth where
  inline := by rw [push_inline, h.inline]
  current := by rw [currentDepth_push]; exact h.settle
  continuation := by rw [continuation_push]; exact h.continuation

theorem newline (h : w.Within depth) {level : Nat} (hle : depth ≤ level) :
    (w.newline level).Within depth where
  inline := by rw [newline_inline, h.inline]
  current := by rw [currentDepth_newline h.inline]; exact hle
  continuation := by rw [continuation_newline]; exact h.continuation

theorem setContinuation (h : w.Within depth) {level : Nat} (hle : depth ≤ level) :
    (w.setContinuation level).Within depth :=
  ⟨h.inline, h.current, hle⟩

theorem padTo (h : w.Within depth) (n : Nat) : (w.padTo n).Within depth where
  inline := by rw [padTo_inline, h.inline]
  current := by rw [currentDepth_padTo]; exact h.current
  continuation := by rw [continuation_padTo]; exact h.continuation

end Within

structure AtMargin (depth : Nat) (w : Writer) : Prop where
  pending : w.pendingBreak = false
  empty : (w.current.getD {}).isEmpty = true
  current : w.currentDepth = depth

namespace AtMargin

variable {depth : Nat} {w : Writer}

theorem of_newline (h : w.inline = false) (depth : Nat) : (w.newline depth).AtMargin depth where
  pending := by obtain ⟨_, _, hn, _⟩ := newline_eq h depth; rw [hn]
  empty := by obtain ⟨_, _, hn, hempty, _⟩ := newline_eq h depth; rw [hn]; exact hempty
  current := currentDepth_newline h depth

theorem setContinuation (h : w.AtMargin depth) (level : Nat) :
    (w.setContinuation level).AtMargin depth :=
  ⟨h.pending, h.empty, h.current⟩

theorem setParenSpace (h : w.AtMargin depth) (on : Bool) : (w.setParenSpace on).AtMargin depth :=
  ⟨h.pending, h.empty, h.current⟩

theorem settle (h : w.AtMargin depth) : w.settle = w := by
  rw [Writer.settle, h.pending]
  rfl

theorem place (h : w.AtMargin depth) (t : Token) : w.place t = ⟨t, depth, true⟩ := by
  rw [Writer.place, h.settle, h.current, h.empty]

theorem push (h : w.AtMargin depth) {t : Token} (ht : t.text.isEmpty = true) :
    (w.push t).AtMargin depth where
  pending := by
    rw [Writer.push, h.settle]
    simp_all [h.pending, Token.isLineComment, Text.startsWith]
  empty := by
    rw [Writer.push, h.settle, h.empty]
    simp [h.empty, Piece.isEmpty, ht]
  current := by rw [currentDepth_push, h.settle, h.current]

end AtMargin

end Writer

end EmbeddedSql.Layout
