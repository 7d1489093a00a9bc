import EmbeddedSql.Text.Basic

namespace EmbeddedSql.Diff

inductive Edit where
  | equal (old new length : Nat)
  | delete (old new length : Nat)
  | insert (old new length : Nat)
  deriving DecidableEq, Repr

namespace Edit

def length : Edit → Nat
  | .equal _ _ n | .delete _ _ n | .insert _ _ n => n

def isDelete : Edit → Bool
  | .delete _ _ _ => true
  | _ => false

def isInsert : Edit → Bool
  | .insert _ _ _ => true
  | _ => false

end Edit

def commonStart : List Text → List Text → Nat
  | a :: as, b :: bs => if a = b then commonStart as bs + 1 else 0
  | _, _ => 0

def commonEnd (as bs : List Text) : Nat := commonStart as.reverse bs.reverse

/-- How far paths reach on each diagonal, counted from -`bound` to `bound`. -/
structure Frontier where
  bound : Nat
  reach : Array Nat

namespace Frontier

def start (bound : Nat) : Frontier := ⟨bound, Array.replicate (2 * bound + 2) 0⟩

def get (f : Frontier) (k : Int) : Nat := f.reach.getD (k + f.bound).toNat 0

def set (f : Frontier) (k : Int) (x : Nat) : Frontier :=
  { f with reach := f.reach.setIfInBounds (k + f.bound).toNat x }

def entry (f : Frontier) (d : Nat) (k : Int) : Nat :=
  if k = -d || (k ≠ d && f.get (k - 1) < f.get (k + 1)) then f.get (k + 1) else f.get (k - 1) + 1

end Frontier

def diagonals (d : Nat) : List Int :=
  (List.range (d + 1)).map fun (i : Nat) => (d : Int) - 2 * (i : Int)

/-- Two texts between which the middle of a path is sought. `forward x y` is the number of equal
lines after the first `x` and `y`, and `backward x y` of those before the last `x` and `y`. -/
structure Sides where
  oldSize : Nat
  newSize : Nat
  forward : Nat → Nat → Nat
  backward : Nat → Nat → Nat

def runFrom (old new : Array Text) (x y : Nat) : (fuel : Nat) → Nat
  | 0 => 0
  | fuel + 1 =>
      match old[x]?, new[y]? with
      | some a, some b => if a = b then runFrom old new (x + 1) (y + 1) fuel + 1 else 0
      | _, _ => 0

def Sides.ofLists (old new : List Text) : Sides :=
  let a := old.toArray
  let b := new.toArray
  let a' := old.reverse.toArray
  let b' := new.reverse.toArray
  { oldSize := a.size
    newSize := b.size
    forward := fun x y => runFrom a b x y a.size
    backward := fun x y => runFrom a' b' x y a.size }

def Sides.delta (s : Sides) : Int := (s.oldSize : Int) - s.newSize

def Sides.runOn (s : Sides) (follow : Nat → Nat → Nat) (f : Frontier) (d : Nat) (k : Int) :
    Nat × Int × Nat :=
  let x := f.entry d k
  let y := (x : Int) - k
  let run := if x < s.oldSize && 0 ≤ y && y < s.newSize then follow x y.toNat else 0
  (x, y, run)

def searchForward (s : Sides) (d : Nat) (backward : Frontier) :
    List Int → Frontier → (Nat × Nat) ⊕ Frontier
  | [], f => .inr f
  | k :: ks, f =>
      let (x, y, run) := s.runOn s.forward f d k
      let f := f.set k (x + run)
      let opposite := k - s.delta
      if s.delta % 2 ≠ 0 && (opposite.natAbs : Int) ≤ (d : Int) - 1 &&
          s.oldSize ≤ f.get k + backward.get (-opposite) then .inl (x, y.toNat)
      else searchForward s d backward ks f

def searchBackward (s : Sides) (d : Nat) (forward : Frontier) :
    List Int → Frontier → (Nat × Nat) ⊕ Frontier
  | [], f => .inr f
  | k :: ks, f =>
      let (x, y, run) := s.runOn s.backward f d k
      let f := f.set k (x + run)
      let opposite := k - s.delta
      if s.delta % 2 = 0 && opposite.natAbs ≤ d &&
          s.oldSize ≤ f.get k + forward.get (-opposite) then
        .inl (s.oldSize - (x + run), (s.newSize : Int) - (y + run) |>.toNat)
      else searchBackward s d forward ks f

def searchRounds (s : Sides) : List Nat → Frontier → Frontier → Option (Nat × Nat)
  | [], _, _ => none
  | d :: ds, forward, backward =>
      match searchForward s d backward (diagonals d) forward with
      | .inl middle => some middle
      | .inr forward =>
          match searchBackward s d forward (diagonals d) backward with
          | .inl middle => some middle
          | .inr backward => searchRounds s ds forward backward

def middle? (old new : List Text) : Option (Nat × Nat) :=
  let s := Sides.ofLists old new
  let bound := (s.oldSize + s.newSize + 1) / 2 + 1
  searchRounds s (List.range bound) (Frontier.start bound) (Frontier.start bound)

def stretch (make : Nat → Nat → Nat → Edit) (old new length : Nat) : List Edit :=
  if length = 0 then [] else [make old new length]

def edits : (fuel : Nat) → (old new : List Text) → (i j : Nat) → List Edit
  | 0, old, new, i, j =>
      stretch .delete i j old.length ++ stretch .insert (i + old.length) j new.length
  | fuel + 1, old, new, i, j =>
      let start := commonStart old new
      let old' := old.drop start
      let new' := new.drop start
      let stop := commonEnd old' new'
      let old'' := old'.take (old'.length - stop)
      let new'' := new'.take (new'.length - stop)
      let i' := i + start
      let j' := j + start
      let inner :=
        if old''.isEmpty || new''.isEmpty then
          stretch .delete i' j' old''.length ++ stretch .insert i' j' new''.length
        else match middle? old'' new'' with
          | some (x, y) =>
              edits fuel (old''.take x) (new''.take y) i' j' ++
                edits fuel (old''.drop x) (new''.drop y) (i' + x) (j' + y)
          | none => stretch .delete i' j' old''.length ++ stretch .insert i' j' new''.length
      stretch .equal i j start ++ inner ++
        stretch .equal (i' + old''.length) (j' + new''.length) stop

end EmbeddedSql.Diff
