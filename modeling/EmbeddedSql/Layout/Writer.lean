import EmbeddedSql.Layout.Spacing
import EmbeddedSql.Settings

namespace EmbeddedSql.Layout

inductive Piece where
  | spaces (n : Nat)
  | token (t : Token)
  deriving DecidableEq, Repr

namespace Piece

def isEmpty : Piece → Bool
  | .spaces n => n = 0
  | .token t => t.text.isEmpty

def width : Piece → Nat
  | .spaces n => n
  | .token t => t.text.length

end Piece

def casedText (case : KeywordCase) (t : Token) : Text :=
  match t.kind, case with
  | .keyword, .upper => t.text.upper
  | .keyword, .lower => t.text.lower
  | _, _ => t.text

def Piece.text (case : KeywordCase) : Piece → Text
  | .spaces n => Text.spaces n
  | .token t => casedText case t

structure Line where
  depth : Nat := 0
  pieces : List Piece := []
  deriving DecidableEq, Repr

namespace Line

def text (case : KeywordCase) (l : Line) : Text := l.pieces.flatMap (Piece.text case)

def isEmpty (l : Line) : Bool := l.pieces.all Piece.isEmpty

def width (l : Line) : Nat := l.pieces.foldr (fun p n => p.width + n) 0

def push (l : Line) (p : Piece) : Line := { l with pieces := l.pieces ++ [p] }

end Line

/-- Takes tokens one by one and puts them on lines. It decides on the spaces between neighbours;
lines are broken when the caller asks, and after a comment that takes the rest of its line. -/
structure Writer where
  inline : Bool := false
  finished : List Line := []
  current : Option Line := none
  last : Option Token := none
  lastUnary : Bool := false
  pendingBreak : Bool := false
  continuation : Nat := 0
  parenSpace : Bool := false
  deriving Repr

namespace Writer

def newline (w : Writer) (depth : Nat) : Writer :=
  if w.inline then w
  else
    let w := { w with pendingBreak := false }
    match w.current with
    | none => { w with current := some { depth := depth } }
    | some l =>
        if l.isEmpty then { w with current := some { l with depth := depth } }
        else { w with finished := w.finished ++ [l], current := some { depth := depth } }

def currentDepth (w : Writer) : Nat := (w.current.map Line.depth).getD 0

def currentWidth (w : Writer) : Nat := (w.current.map Line.width).getD 0

theorem currentWidth_of_current {w : Writer} {l : Line} (h : w.current = some l) :
    w.currentWidth = l.width := by
  rw [currentWidth, h]
  rfl

def setContinuation (w : Writer) (depth : Nat) : Writer := { w with continuation := depth }

def setParenSpace (w : Writer) (on : Bool) : Writer := { w with parenSpace := on }

def settle (w : Writer) : Writer :=
  if w.pendingBreak then w.newline w.continuation else w

def push (w : Writer) (t : Token) : Writer :=
  let w := w.settle
  let line := w.current.getD {}
  let spaced :=
    if needsSpace w.last w.lastUnary w.parenSpace t && !line.isEmpty then line.push (.spaces 1)
    else line
  { w with
    current := some (spaced.push (.token t))
    last := some t
    lastUnary := isUnary t w.last
    pendingBreak := w.pendingBreak || t.isLineComment }

def pushAll (w : Writer) (ts : List Token) : Writer := ts.foldl push w

def padTo (w : Writer) (width : Nat) : Writer :=
  match w.current with
  | none => w
  | some l =>
      if w.currentWidth < width then
        { w with current := some (l.push (.spaces (width - w.currentWidth))) }
      else w

def lines (w : Writer) : List Line :=
  (w.finished ++ w.current.toList).filter fun l => !l.isEmpty

def finish (w : Writer) (o : LayoutOptions) : Text :=
  match w.lines with
  | [] => []
  | [only] => only.text o.keywordCase
  | lines => lines.flatMap fun l =>
      Text.spaces (l.depth * o.indentWidth) ++ l.text o.keywordCase ++ ['\n']

end Writer

end EmbeddedSql.Layout
