import EmbeddedSql.CommandLine.Arguments
import EmbeddedSql.Configuration
import EmbeddedSql.Diff.Printer
import EmbeddedSql.Run

namespace EmbeddedSql.CommandLine

structure Environment where
  files : FileSystem
  userDirectory : Option Path := none
  input : Content := .text []
  optsOutOfColor : Bool := false

structure Outcome where
  code : Nat := 0
  output : Text := []
  errors : Text := []
  files : FileSystem
  writes : List (Path × Text) := []

inductive Failure where
  | misuse (m : Misuse)
  | configuration (e : Error)
  | unreadableInput (f : ReadFault)
  | processing (e : Error)
  deriving Repr

def cause? : Error → Option String
  | .read f => some f.message
  | _ => none

def describe (e : Error) : String := ": ".intercalate (e.message :: (cause? e).toList)

def Failure.message : Failure → String
  | .misuse m => "error: " ++ m.message
  | .configuration e => "Error: Configuration error: " ++ describe e
  | .unreadableInput f => "Error: Error reading stdin: " ++ f.message
  | .processing e => "Error: " ++ describe e

def line (s : String) : Text := s.toList ++ ['\n']

def formatInput (env : Environment) (r : Request) (s : Settings) : Except Failure Outcome := do
  let language ← match HostLanguage.ofName? r.language with
    | some l => pure l
    | none => .error (.processing (.settings (.unknownLanguage r.language)))
  let source ← match env.input with
    | .text t => pure t
    | .binary _ => .error (.unreadableInput .notText)
  let out ← (formatSource s language source).mapError .processing
  pure {
    code :=
      if !out.failures.isEmpty then 2 else if s.check && out.formatted ≠ source then 1 else 0
    output := out.formatted
    errors := out.failures.flatMap fun e => line ("error: <stdin>: " ++ e.message)
    files := env.files }

def changeLines (color : Bool) (changes : List FileChange) : Text :=
  changes.flatMap fun c => Diff.print color c.path c.before c.after

def reformattedLines (report : Report) : Text :=
  (report.results.filter fun f => f.status = .changed).flatMap fun f =>
    line ("reformatted " ++ String.ofList f.path.spelling)

def noticeLines (o : ConsoleOptions) (report : Report) : Text :=
  if o.quiet then []
  else (if o.verbose then reformattedLines report else []) ++ line report.summary

def writes (before : FileSystem) (out : RunOutcome) : List (Path × Text) :=
  out.report.results.filterMap fun f =>
    match before.read f.path, out.files.read f.path with
    | .ok old, .ok new => if old = new then none else some (f.path, new)
    | _, _ => none

def formatInputs (env : Environment) (r : Request) (s : Settings) : Except Failure Outcome := do
  let out ← (run s env.files r.inputs).mapError .processing
  pure {
    code := out.report.exitCode s.check
    errors := changeLines (s.console.showsColor env.optsOutOfColor) out.shown ++
      noticeLines s.console out.report ++ out.report.errorLines.flatMap line
    files := out.files
    writes := writes env.files out }

def perform (env : Environment) (r : Request) : Except Failure Outcome := do
  let settings ← (Configuration.load env.files env.userDirectory r.inputs r.config).mapError
    .configuration
  let s := r.apply settings
  if r.readsInput then formatInput env r s else formatInputs env r s

def versionLine : Text := line "sqlembed 0.1.0"

def Switch.usage (o : Switch) : String :=
  let value := match o.action with
    | .value _ => " <VALUE>"
    | _ => ""
  let letter := match o.letter with
    | some c => "-" ++ String.singleton c ++ ", "
    | none => "    "
  "  " ++ letter ++ "--" ++ o.name ++ value

def helpLines : Text :=
  (["Usage: sqlembed [OPTIONS] <FILES>...", "", "Options:"] ++
    switches.map Switch.usage).flatMap line

def execute (env : Environment) (arguments : List Text) : Except Failure Outcome :=
  match readArguments arguments with
  | .ok r => perform env r
  | .error .version => .ok { output := versionLine, files := env.files }
  | .error .help => .ok { output := helpLines, files := env.files }
  | .error (.misuse m) => .error (.misuse m)

def Outcome.ofFailure (env : Environment) (f : Failure) : Outcome :=
  { code := 2, errors := line f.message, files := env.files }

end EmbeddedSql.CommandLine
