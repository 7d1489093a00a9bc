import EmbeddedSql.Toml.Value

namespace EmbeddedSql.Toml

/-- How a table came about: by its own header, as part of the header of another, or through a dotted
key. -/
inductive Origin where
  | header
  | implied
  | dotted
  deriving DecidableEq, Repr

inductive Item where
  | value (v : Value)
  | table (origin : Origin) (entries : List (Text × Item))
  | tables (elements : List (List (Text × Item)))
  deriving Repr

abbrev Entries := List (Text × Item)

namespace Entries

def set (es : Entries) (key : Text) (item : Item) : Entries :=
  es.map fun (k, i) => if k = key then (k, item) else (k, i)

def modify (origin : Origin) (f : Origin → Entries → Option Entries) :
    List Text → Origin → Entries → Option Entries
  | [], own, es => f own es
  | key :: path, _, es =>
      match es.lookup key with
      | none => (modify origin f path origin []).map fun inner =>
          es ++ [(key, .table origin inner)]
      | some (.value _) => none
      | some (.table own inner) =>
          if origin = .dotted && own = .header then none
          else (modify origin f path own inner).map fun inner => set es key (.table own inner)
      | some (.tables elements) =>
          match elements.getLast? with
          | none => none
          | some last => (modify origin f path .header last).map fun inner =>
              set es key (.tables (elements.dropLast ++ [inner]))

def add (es : Entries) (path : List Text) (key : Text) (v : Value) : Option Entries :=
  modify .dotted
    (fun own es =>
      if (!path.isEmpty && own ≠ .dotted) || (es.lookup key).isSome then none
      else some (es ++ [(key, .value v)]))
    path .header es

structure Assignment where
  path : List Text
  key : Text
  value : Value

def addAll (es : Entries) (assignments : List Assignment) : Option Entries :=
  assignments.foldlM (fun es a => es.add a.path a.key a.value) es

def addTable (es : Entries) (path : List Text) (key : Text) (assignments : List Assignment) :
    Option Entries :=
  modify .implied
    (fun _ es =>
      match es.lookup key with
      | none => (addAll [] assignments).map fun inner => es ++ [(key, .table .header inner)]
      | some (.table .implied inner) =>
          (addAll inner assignments).map fun inner => set es key (.table .header inner)
      | some _ => none)
    path .header es

def addElement (es : Entries) (path : List Text) (key : Text) (assignments : List Assignment) :
    Option Entries :=
  modify .implied
    (fun _ es =>
      match es.lookup key with
      | none => (addAll [] assignments).map fun inner => es ++ [(key, .tables [inner])]
      | some (.tables elements) =>
          (addAll [] assignments).map fun inner => set es key (.tables (elements ++ [inner]))
      | some _ => none)
    path .header es

end Entries

def insertEntry (key : Text) (v : Value) : Table → Table
  | [] => [(key, v)]
  | (k, w) :: rest =>
      if (List.compareLex Ord.compare key k).isLT then (key, v) :: (k, w) :: rest
      else (k, w) :: insertEntry key v rest

mutual

def Item.toValue : Item → Value
  | .value v => v
  | .table _ entries => .table (tableOf entries)
  | .tables elements => .array (tablesOf elements)

def tableOf : List (Text × Item) → Table
  | [] => []
  | (key, item) :: rest => insertEntry key item.toValue (tableOf rest)

def tablesOf : List (List (Text × Item)) → List Value
  | [] => []
  | entries :: rest => .table (tableOf entries) :: tablesOf rest

end

end EmbeddedSql.Toml
