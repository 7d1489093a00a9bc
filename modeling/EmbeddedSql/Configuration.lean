import EmbeddedSql.Configuration.Options
import EmbeddedSql.Files.FileSystem
import EmbeddedSql.Toml.Document

namespace EmbeddedSql.Configuration

def fileName : Text := "sqlembed.toml".toList

def projectFileName : Text := "pyproject.toml".toList

def section? (t : Toml.Table) : Option Toml.Value :=
  (t.get? "tool".toList).bind (Toml.Value.get? "sqlembed".toList)

def directoryOf (fs : FileSystem) (input : Path) : Path :=
  let directory :=
    if fs.isDirectory input then input
    else match input.parent? with
      | some p => if p.spelling.isEmpty then ⟨['.']⟩ else p
      | none => ⟨['.']⟩
  (fs.canonical? directory).getD directory

def addNew (known paths : List Path) : List Path :=
  paths.foldl
    (fun ps p => if ps.any fun q => p.components = q.components then ps else ps ++ [p]) known

/-- The directories of the inputs and all above them, from the inside out, input by input and each
once. -/
def searchedDirectories (fs : FileSystem) (inputs : List Path) : List Path :=
  inputs.foldl (fun ps input => addNew ps (directoryOf fs input).ancestors) []

def hasSection (fs : FileSystem) (p : Path) : Bool :=
  match fs.read p with
  | .ok text => ((Toml.parse? text).bind section?).isSome
  | .error _ => false

def inDirectory? (fs : FileSystem) (directory : Path) : Option Path :=
  let own := directory.join fileName
  let project := directory.join projectFileName
  if fs.isFile own then some own
  else if fs.isFile project && hasSection fs project then some project
  else none

def find? (fs : FileSystem) (inputs : List Path) : Option Path :=
  (searchedDirectories fs inputs).findSome? (inDirectory? fs)

def userFile? (fs : FileSystem) (directory : Option Path) : Option Path :=
  (directory.map fun d => (d.join "sqlembed".toList).join fileName).filter fs.isFile

def tableIn (fs : FileSystem) (p : Path) : Except Error Toml.Table := do
  let text ← (fs.read p).mapError .read
  match Toml.parse? text with
  | none => .error .toml
  | some table =>
      if p.fileName? = some projectFileName then
        match section? table with
        | some (.table t) => pure t
        | some _ => .error (.settings (.sectionNotTable p.spelling))
        | none => pure []
      else pure table

def file (fs : FileSystem) (userDirectory : Option Path) (inputs : List Path)
    (named : Option Path) : Except Error (Option Path) :=
  match named with
  | some p =>
      if (fs.node? p).isSome then .ok (some p) else .error (.settings (.fileNotFound p.spelling))
  | none => .ok ((find? fs inputs).orElse fun _ => userFile? fs userDirectory)

def load (fs : FileSystem) (userDirectory : Option Path) (inputs : List Path)
    (named : Option Path) : Except Error Settings := do
  match ← file fs userDirectory inputs named with
  | none => pure {}
  | some p =>
      let table ← tableIn fs p
      (apply {} table).mapError .settings

end EmbeddedSql.Configuration
