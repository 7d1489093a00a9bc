import EmbeddedSql.CommandLine.Switch

namespace EmbeddedSql.CommandLine

inductive Misuse where
  | unknownOption (argument : Text)
  | missingValue (option : String)
  | unexpectedValue (option : String) (value : Text)
  | repeated (option : String)
  | invalidValue (option : String) (value : Text)
  | emptyInput
  | missingInputs
  deriving DecidableEq, Repr

def Misuse.message : Misuse → String
  | .unknownOption a => "unexpected argument '" ++ String.ofList a ++ "' found"
  | .missingValue o => "a value is required for '--" ++ o ++ "' but none was supplied"
  | .unexpectedValue o v => "unexpected value '" ++ String.ofList v ++ "' for '--" ++ o ++ "' found"
  | .repeated o => "the argument '--" ++ o ++ "' cannot be used multiple times"
  | .invalidValue o v => "invalid value '" ++ String.ofList v ++ "' for '--" ++ o ++ "'"
  | .emptyInput => "a value is required for '<FILES>...' but none was supplied"
  | .missingInputs => "the following required arguments were not provided: <FILES>..."

inductive Stop where
  | misuse (m : Misuse)
  | version
  | help
  deriving DecidableEq, Repr

structure Reading where
  request : Request := {}
  given : List String := []
  awaiting : Option Switch := none
  optionsEnded : Bool := false

namespace Reading

def give (s : Reading) (o : Switch) : Except Stop Reading :=
  if s.given.contains o.name && !o.repeatable then .error (.misuse (.repeated o.name))
  else .ok { s with given := o.name :: s.given, awaiting := none }

def accept (s : Reading) (o : Switch) (take : Request → Text → Option Request) (value : Text) :
    Except Stop Reading := do
  let s ← s.give o
  match take s.request value with
  | some r => pure { s with request := r }
  | none => .error (.misuse (.invalidValue o.name value))

def use (s : Reading) (o : Switch) (attached : Option Text) : Except Stop Reading :=
  match o.action, attached with
  | .value take, some v => s.accept o take v
  | .value _, none => .ok { s with awaiting := some o }
  | _, some v => .error (.misuse (.unexpectedValue o.name v))
  | .flag raise, none => (s.give o).map fun s => { s with request := raise s.request }
  | .version, none => .error .version
  | .help, none => .error .help

/-- Letters after a hyphen: flags, up to an option that takes what follows as its value, with or
without an equals sign between. -/
def letters (s : Reading) : Text → Except Stop Reading
  | [] => .ok s
  | c :: rest =>
      match Switch.ofLetter? c with
      | none => .error (.misuse (.unknownOption ['-', c]))
      | some o =>
          match o.action, rest with
          | .value take, '=' :: v => s.accept o take v
          | .value take, d :: v => s.accept o take (d :: v)
          | _, _ => do (← s.use o none).letters rest

def long (s : Reading) (t : Text) : Except Stop Reading :=
  let name := t.takeWhile (· ≠ '=')
  match Switch.ofName? name, t.dropWhile (· ≠ '=') with
  | none, _ => .error (.misuse (.unknownOption ('-' :: '-' :: name)))
  | some o, [] => s.use o none
  | some o, _ :: value => s.use o (some value)

def input (s : Reading) (t : Text) : Except Stop Reading :=
  match path? t with
  | some p => .ok { s with request := { s.request with inputs := s.request.inputs ++ [p] } }
  | none => .error (.misuse .emptyInput)

def isOption : Text → Bool
  | '-' :: _ :: _ => true
  | _ => false

def next (s : Reading) (argument : Text) : Except Stop Reading :=
  match s.awaiting with
  | some o =>
      if isOption argument then .error (.misuse (.missingValue o.name))
      else s.use o (some argument)
  | none =>
      if s.optionsEnded then s.input argument
      else match argument with
        | ['-', '-'] => .ok { s with optionsEnded := true }
        | '-' :: '-' :: t => s.long t
        | '-' :: c :: t => s.letters (c :: t)
        | t => s.input t

def finish (s : Reading) : Except Stop Request :=
  match s.awaiting with
  | some o => .error (.misuse (.missingValue o.name))
  | none => if s.request.inputs.isEmpty then .error (.misuse .missingInputs) else .ok s.request

end Reading

def readArguments (arguments : List Text) : Except Stop Request := do
  (← arguments.foldlM Reading.next {}).finish

end EmbeddedSql.CommandLine
