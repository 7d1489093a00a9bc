import EmbeddedSql.Files.Discovery
import EmbeddedSql.Report
import EmbeddedSql.Source

namespace EmbeddedSql

structure FileChange where
  path : Path
  before : Text
  after : Text
  deriving DecidableEq, Repr

structure FileStep where
  files : FileSystem
  result : FileResult
  shown : Option FileChange := none

def formatFile (v : Vocabulary) (s : Settings) (fs : FileSystem) (path : Path) : FileStep :=
  match path.language? with
  | none => { files := fs, result := .failed path "Unsupported file type" }
  | some language =>
      match fs.read path with
      | .error e => { files := fs, result := .failed path ("Read error: " ++ e.message) }
      | .ok source =>
          let outcome := formatSourceWith v s language source
          let failures := outcome.failures.map QuotingError.message
          if outcome.formatted = source then
            { files := fs, result := { path := path, status := .unchanged, failures := failures } }
          else
            match if s.check || s.diff then .ok fs else fs.write path outcome.formatted with
            | .error e =>
                let result := FileResult.failed path ("Write error: " ++ e.message)
                { files := fs, result := { result with failures := failures } }
            | .ok files =>
                { files := files
                  result := { path := path, status := .changed, failures := failures }
                  shown := if s.diff then some ⟨path, source, outcome.formatted⟩ else none }

structure RunOutcome where
  files : FileSystem
  report : Report := {}
  shown : List FileChange := []

def formatFiles (v : Vocabulary) (s : Settings) (fs : FileSystem) (paths : List Path) :
    RunOutcome :=
  paths.foldl
    (fun out path =>
      let step := formatFile v s out.files path
      ⟨step.files, out.report.add step.result, out.shown ++ step.shown.toList⟩)
    { files := fs }

def run (s : Settings) (fs : FileSystem) (inputs : List Path) : Except Error RunOutcome := do
  let v ← s.vocabulary
  let paths ← matchingPaths fs s inputs
  pure (formatFiles v s fs paths)

end EmbeddedSql
