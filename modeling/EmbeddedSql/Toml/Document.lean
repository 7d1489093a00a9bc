import EmbeddedSql.Toml.Scalar
import EmbeddedSql.Toml.Table

namespace EmbeddedSql.Toml

open Text

def nestingLimit : Nat := 80

def skipFiller (inComment : Bool) : Text → Option Text
  | [] => if inComment then none else some []
  | [c] =>
      if inComment then (if c == '\n' then some [] else none)
      else if isSpace c || c == '\n' then some []
      else if c == '\r' || c == '#' then none
      else some [c]
  | c :: d :: r =>
      if c == '\n' then skipFiller false (d :: r)
      else if c == '\r' then if d == '\n' then skipFiller false r else none
      else if inComment then if isPlainChar c then skipFiller true (d :: r) else none
      else if isSpace c then skipFiller false (d :: r)
      else if c == '#' then skipFiller true (d :: r)
      else some (c :: d :: r)

def isBareKeyChar (c : Char) : Bool := c.isAlphanum || c == '-' || c == '_'

def simpleKey (t : Text) : Option (Text × Text) :=
  match t with
  | [] => none
  | c :: _ =>
      if c == doubleQuote || c == singleQuote then lineString t
      else
        let key := t.takeWhile isBareKeyChar
        if key.isEmpty then none else some (key, t.drop key.length)

def key (t : Text) : Option (List Text × Text) := do
  let (first, r) ← simpleKey (skipSpaces t)
  match _h : skipSpaces r with
  | '.' :: rest =>
      if rest.length < t.length then do
        let (parts, r) ← key rest
        pure (first :: parts, r)
      else none
  | r => pure ([first], r)
termination_by t.length

def dottedKey (t : Text) : Option ((List Text × Text) × Text) := do
  let (parts, r) ← key t
  let last ← parts.getLast?
  if parts.length < nestingLimit then pure ((parts.dropLast, last), r) else none

def arrayItems (value : Reader Value) (t : Text) : Option (List Value × Text) := do
  match ← skipFiller false t with
  | ']' :: r => pure ([], r)
  | start => do
      let (v, r) ← value start
      match ← skipFiller false r with
      | ']' :: r => pure ([v], r)
      | ',' :: r =>
          if r.length < t.length then do
            let (vs, r) ← arrayItems value r
            pure (v :: vs, r)
          else none
      | _ => none
termination_by t.length

def assignment (value : Reader Value) (t : Text) : Option (Entries.Assignment × Text) := do
  let ((path, key), r) ← dottedKey t
  let (v, r) ← value (skipSpaces (← mark '=' r))
  pure (⟨path, key, v⟩, r)

def inlineAssignments (value : Reader Value) (t : Text) :
    Option (List Entries.Assignment × Text) := do
  let (a, r) ← assignment value t
  match skipSpaces r with
  | c :: r =>
      if c == closeBrace then pure ([a], r)
      else if c == ',' && decide (r.length < t.length) then do
        let (later, r) ← inlineAssignments value r
        pure (a :: later, r)
      else none
  | [] => none
termination_by t.length
decreasing_by simp_all

def inlineTable (value : Reader Value) (t : Text) : Option (Value × Text) := do
  let (assignments, r) ← match skipSpaces t with
    | c :: r => if c == closeBrace then some ([], r) else inlineAssignments value t
    | [] => none
  let entries ← Entries.addAll [] assignments
  pure (.table (tableOf entries), r)

def value : (nesting : Nat) → Reader Value
  | 0, t =>
      match t with
      | c :: _ => if c == '[' || c == openBrace then none else scalar t
      | [] => none
  | nesting + 1, t =>
      match t with
      | c :: r =>
          if c == '[' then (arrayItems (value nesting) r).map fun (vs, r) => (.array vs, r)
          else if c == openBrace then inlineTable (value nesting) r
          else scalar t
      | [] => none

inductive Statement where
  | assign (a : Entries.Assignment)
  | table (path : List Text) (key : Text)
  | element (path : List Text) (key : Text)

def lineEnd? (t : Text) : Option Text :=
  let t := skipSpaces t
  let t := match t with
    | '#' :: r => r.dropWhile isPlainChar
    | t => t
  if t.isEmpty then some [] else newline? t

def statement (t : Text) : Option (Statement × Text) :=
  match t with
  | '[' :: '[' :: r => do
      let ((path, key), r) ← dottedKey r
      let r ← mark ']' (← mark ']' r)
      pure (.element path key, r)
  | '[' :: r => do
      let ((path, key), r) ← dottedKey r
      pure (.table path key, ← mark ']' r)
  | t => (assignment (value (nestingLimit - 1)) t).map fun (a, r) => (.assign a, r)

def statements (t : Text) : Option (List Statement) :=
  match skipSpaces t with
  | [] => some []
  | c :: r =>
      let parsed := if c == '#' || c == '\n' || c == '\r' then some (none, c :: r)
        else (statement (c :: r)).map fun (s, r) => (some s, r)
      match parsed with
      | none => none
      | some (s, r) =>
          match lineEnd? r with
          | none => none
          | some rest =>
              if rest.length < t.length then
                (statements rest).map fun later => s.toList ++ later
              else none
termination_by t.length

structure Section where
  heading : Option Statement
  assignments : List Entries.Assignment

def sections (heading : Option Statement) : List Statement → List Section
  | [] => [⟨heading, []⟩]
  | .assign a :: rest =>
      match sections heading rest with
      | [] => [⟨heading, [a]⟩]
      | s :: later => ⟨s.heading, a :: s.assignments⟩ :: later
  | s :: rest => ⟨heading, []⟩ :: sections (some s) rest

def Section.addTo (s : Section) (es : Entries) : Option Entries :=
  match s.heading with
  | some (.table path key) => es.addTable path key s.assignments
  | some (.element path key) => es.addElement path key s.assignments
  | _ => es.addAll s.assignments

def parse? (t : Text) : Option Table := do
  let t := match t with
    | '\uFEFF' :: r => r
    | t => t
  let lines ← statements t
  let entries ← (sections none lines).foldlM (fun es s => s.addTo es) []
  pure (tableOf entries)

end EmbeddedSql.Toml
