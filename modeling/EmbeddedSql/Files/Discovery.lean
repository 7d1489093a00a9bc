import EmbeddedSql.Pattern.Exclude
import EmbeddedSql.Pattern.Wildcard
import EmbeddedSql.Settings

namespace EmbeddedSql

def isHidden (name : Text) : Bool := name.head? == some '.'

mutual

def Node.sources (excluded : Path → Bool) (path : Path) : Node → List Path
  | .file _ => if !excluded path && path.language?.isSome then [path] else []
  | .directory entries => if excluded path then [] else entrySources excluded path entries

def entrySources (excluded : Path → Bool) (directory : Path) : List (Text × Node) → List Path
  | [] => []
  | (name, node) :: rest =>
      (if isHidden name then [] else node.sources excluded (directory.join name)) ++
        entrySources excluded directory rest

end

def inputPaths (fs : FileSystem) (input : Path) : List Path :=
  if (fs.node? input).isSome then [input]
  else match InputPattern.parse? input.spelling with
    | some pattern => pattern.expand fs
    | none => []

def inputSources (fs : FileSystem) (excluded : Path → Bool) (input : Path) : List Path :=
  (inputPaths fs input).flatMap fun path =>
    match fs.node? path with
    | some node => node.sources excluded path
    | none => []

def matchingPaths (fs : FileSystem) (s : Settings) (inputs : List Path) :
    Except Error (List Path) := do
  let patterns ← excludePatterns s.exclude
  pure ((inputs.flatMap (inputSources fs (isExcluded patterns))).foldl (fun ps p => p.insert ps) [])

end EmbeddedSql
