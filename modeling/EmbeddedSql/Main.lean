import EmbeddedSql.CommandLine

namespace EmbeddedSql.Main

open CommandLine

def resolve (directory : Location) (p : Path) : Location :=
  p.pieces.foldl
    (fun location piece =>
      if piece = [] || piece = ['.'] then location
      else if piece = ['.', '.'] then location.dropLast
      else location ++ [piece])
    (if p.isAbsolute then [] else directory)

def isSource (p : Path) : Bool := p.language?.isSome

def spelled (p : Path) : String := if p.spelling.isEmpty then "." else String.ofList p.spelling

def readNode? (isWanted : Path → Bool) : (levels : Nat) → Path → IO (Option Node)
  | 0, _ => pure none
  | levels + 1, p => do
      try
        let real ← IO.FS.realPath (spelled p)
        if ← real.isDir then
          let mut entries : List (Text × Node) := []
          for entry in ← real.readDir do
            let name := entry.fileName.toList
            if let some node ← readNode? isWanted levels (p.join name) then
              entries := (name, node) :: entries
          return some (.directory entries)
        else if isWanted p then return some (.file (.ofBytes (← IO.FS.readBinFile real)))
        else if ← real.pathExists then return some (.file (.text []))
        else return none
      catch _ => return none

def deepest : Nat := 100

def firstNode? : List Path → IO (Option (Path × Node))
  | [] => pure none
  | p :: ps => do
      match ← readNode? isSource deepest p with
      | some node => pure (some (p, node))
      | none => firstNode? ps

def load (fs : FileSystem) (p : Path) (node : Node) : FileSystem :=
  { fs with root := fs.root.insert (resolve fs.workingDirectory p) node }

def loadSettingsFile (fs : FileSystem) (p : Path) : IO FileSystem := do
  match ← readNode? (fun _ => true) 1 p with
  | some node => return load fs p node
  | none => return fs

def loadSettings (fs : FileSystem) (directory : Path) : IO FileSystem := do
  let mut fs := fs
  for d in (FileSystem.pathOf (resolve fs.workingDirectory directory)).ancestors do
    for name in [Configuration.fileName, Configuration.projectFileName] do
      fs ← loadSettingsFile fs (d.join name)
  return fs

def loadInput (fs : FileSystem) (input : Path) : IO FileSystem := do
  let fs ← loadSettings fs input
  match ← firstNode? input.ancestors with
  | some (p, node) => return load fs p node
  | none => return fs

def userDirectory? : IO (Option Path) := do
  match (← IO.getEnv "XDG_CONFIG_HOME").map (fun d => Path.mk d.toList) with
  | some d => if d.isAbsolute then return some d else home?
  | none => home?
where
  home? : IO (Option Path) := do
    return (← IO.getEnv "HOME").map fun d => (Path.mk d.toList).join ".config".toList

partial def readInput (stream : IO.FS.Stream) (read : ByteArray) : IO ByteArray := do
  let more ← stream.read 65536
  if more.isEmpty then return read else readInput stream (read ++ more)

def optsOutOfColor : IO Bool := do
  let terminal ← IO.getEnv "TERM"
  return (← IO.getEnv "NO_COLOR").isSome || terminal.isNone || terminal == some "dumb"

def environment (r : Request) : IO Environment := do
  let here := Path.mk (← IO.currentDir).toString.toList
  let start : FileSystem := { workingDirectory := resolve [] here }
  let mut fs := load start here (.directory [])
  for input in r.inputs do
    fs ← loadInput fs input
  let user ← userDirectory?
  let userFile := user.map fun d => (d.join "sqlembed".toList).join Configuration.fileName
  for p in r.config.toList ++ userFile.toList do
    fs ← loadSettingsFile fs p
  let input ← if r.readsInput then readInput (← IO.getStdin) .empty else pure .empty
  return {
    files := fs
    userDirectory := user
    input := .ofBytes input
    optsOutOfColor := ← optsOutOfColor }

def refuses (p : Path) : IO Bool := do
  try
    let _ ← IO.FS.Handle.mk (spelled p) .append
    return false
  catch _ => return true

def perform (env : Environment) (arguments : List Text) : IO Outcome := do
  let run (env : Environment) : Outcome :=
    match execute env arguments with
    | .ok out => out
    | .error f => .ofFailure env f
  let out := run env
  let refused ← out.writes.filterM fun (p, _) => refuses p
  let readOnly := refused.filterMap fun (p, _) => env.files.locate? p
  return if readOnly.isEmpty then out
    else run { env with files := { env.files with readOnly := readOnly } }

def leave (out : Outcome) : IO UInt32 := do
  for (p, t) in out.writes do
    IO.FS.writeFile (spelled p) (String.ofList t)
  (← IO.getStdout).putStr (String.ofList out.output)
  (← IO.getStderr).putStr (String.ofList out.errors)
  return UInt32.ofNat out.code

end EmbeddedSql.Main

def main (arguments : List String) : IO UInt32 := do
  let arguments := arguments.map String.toList
  let request := (EmbeddedSql.CommandLine.readArguments arguments).toOption.getD {}
  let env ← EmbeddedSql.Main.environment request
  EmbeddedSql.Main.leave (← EmbeddedSql.Main.perform env arguments)
