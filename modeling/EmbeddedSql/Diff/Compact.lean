import EmbeddedSql.Diff

namespace EmbeddedSql.Diff

/-- An edit among others: those before it, nearest first, and those after it. -/
structure Focus where
  before : List Edit
  edit : Edit
  after : List Edit

def slice (lines : List Text) (start length : Nat) : List Text := (lines.drop start).take length

def prependEqual (i j n : Nat) : List Edit → List Edit
  | .equal i' j' m :: r => .equal (i' - n) (j' - n) (m + n) :: r
  | r => .equal i j n :: r

def appendEqual (i j n : Nat) : List Edit → List Edit
  | .equal i' j' m :: r => .equal i' j' (m + n) :: r
  | r => .equal i j n :: r

def stepUp? (old new : List Text) (f : Focus) : Option Focus :=
  match f.edit, f.before with
  | .insert i j n, .equal i' j' m :: before =>
      let s := commonEnd (slice old i' m) (slice new j n)
      if s = 0 then if m = 0 then some { f with before := before } else none
      else
        let rest := if m - s = 0 then before else .equal i' j' (m - s) :: before
        some ⟨rest, .insert (i - s) (j - s) n, prependEqual (i' + m - s) (j + n - s) s f.after⟩
  | .delete _ _ _, .equal _ _ m :: before =>
      if m = 0 then some { f with before := before } else none
  | .insert _ _ n, .insert i j m :: before =>
      some { f with before := before, edit := .insert i j (m + n) }
  | .delete _ _ n, .delete i j m :: before =>
      some { f with before := before, edit := .delete i j (m + n) }
  | .insert _ _ _, .delete i j m :: before =>
      some { f with before := before, after := .delete i j m :: f.after }
  | .delete _ _ _, .insert i j m :: before =>
      some { f with before := before, after := .insert i j m :: f.after }
  | _, _ => none

def stepDown? (old new : List Text) (f : Focus) : Option Focus :=
  match f.edit, f.after with
  | .insert i j n, .equal i' j' m :: after =>
      let s := commonStart (slice old i' m) (slice new j n)
      if s = 0 then if m = 0 then some { f with after := after } else none
      else
        let rest := if m - s = 0 then after else .equal (i' + s) (j' + s) (m - s) :: after
        some ⟨appendEqual i' j s f.before, .insert (i + s) (j + s) n, rest⟩
  | .delete _ _ _, .equal _ _ m :: after =>
      if m = 0 then some { f with after := after } else none
  | .insert i j n, .insert _ _ m :: after =>
      some { f with edit := .insert i j (n + m), after := after }
  | .delete i j n, .delete _ _ m :: after =>
      some { f with edit := .delete i j (n + m), after := after }
  | .insert _ _ _, .delete i j m :: after =>
      some { f with before := .delete i j m :: f.before, after := after }
  | .delete _ _ _, .insert i j m :: after =>
      some { f with before := .insert i j m :: f.before, after := after }
  | _, _ => none

def settle (step? : Focus → Option Focus) : (fuel : Nat) → Focus → Focus
  | 0, f => f
  | fuel + 1, f =>
      match step? f with
      | some g => settle step? fuel g
      | none => f

def settleAll (kind : Edit → Bool) (old new : List Text) (steps : Nat) :
    (fuel : Nat) → List Edit → List Edit → List Edit
  | 0, before, after => before.reverse ++ after
  | _ + 1, before, [] => before.reverse
  | fuel + 1, before, e :: after =>
      if kind e then
        let up := settle (stepUp? old new) steps ⟨before, e, after⟩
        let f := settle (stepDown? old new) steps up
        settleAll kind old new steps fuel (f.edit :: f.before) f.after
      else settleAll kind old new steps fuel (e :: before) after

def compact (old new : List Text) (es : List Edit) : List Edit :=
  let size := old.length + new.length + es.length + 1
  let es := settleAll Edit.isDelete old new size (size * size) [] es
  settleAll Edit.isInsert old new size (size * size) [] es

end EmbeddedSql.Diff
