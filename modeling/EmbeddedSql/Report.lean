import EmbeddedSql.Files.Path

namespace EmbeddedSql

inductive FileStatus where
  | unchanged
  | changed
  | error
  deriving DecidableEq, Repr

structure FileResult where
  path : Path
  status : FileStatus
  error : Option String := none
  failures : List String := []
  deriving DecidableEq, Repr

def FileResult.failed (path : Path) (error : String) : FileResult :=
  { path := path, status := .error, error := some error }

structure Report where
  results : List FileResult := []
  deriving DecidableEq, Repr

namespace Report

def add (r : Report) (result : FileResult) : Report := ⟨r.results ++ [result]⟩

def total (r : Report) : Nat := r.results.length

def count (r : Report) (status : FileStatus) : Nat := r.results.countP fun f => f.status = status

def failures (r : Report) : Nat := (r.results.flatMap FileResult.failures).length

def hasErrors (r : Report) : Bool := 0 < r.count .error || 0 < r.failures

def hasChanges (r : Report) : Bool := 0 < r.count .changed

def exitCode (r : Report) (check : Bool) : Nat :=
  if r.hasErrors then 2 else if check && r.hasChanges then 1 else 0

def summary (r : Report) : String :=
  let part (n : Nat) (what : String) : List String := if 0 < n then [toString n ++ what] else []
  ", ".intercalate
    ([toString r.total ++ " file(s) processed"] ++ part (r.count .changed) " reformatted" ++
      part (r.count .unchanged) " unchanged" ++ part r.failures " literal(s) skipped" ++
      part (r.count .error) " error(s)")

def errorLines (r : Report) : List String :=
  r.results.flatMap fun f =>
    (f.error.toList ++ f.failures).map fun e =>
      "error: " ++ String.ofList f.path.spelling ++ ": " ++ e

end Report

end EmbeddedSql
