import EmbeddedSql.Files.FileSystem

namespace EmbeddedSql

structure CharRange where
  first : Char
  last : Char
  deriving DecidableEq, Repr

def CharRange.contains (r : CharRange) (c : Char) : Bool := r.first ≤ c && c ≤ r.last

inductive Wildcard where
  | char (c : Char)
  | anyChar
  | anyRun
  | oneOf (negated : Bool) (ranges : List CharRange)
  deriving DecidableEq, Repr

namespace Wildcard

def anyRest (p : Text → Bool) : Text → Bool
  | [] => p []
  | c :: r => p (c :: r) || anyRest p r

def matchesName : List Wildcard → Text → Bool
  | [], t => t.isEmpty
  | .anyRun :: ws, t => anyRest (matchesName ws) t
  | .char c :: ws, d :: t => c == d && matchesName ws t
  | .anyChar :: ws, _ :: t => matchesName ws t
  | .oneOf negated ranges :: ws, d :: t =>
      (ranges.any (·.contains d) != negated) && matchesName ws t
  | _ :: _, [] => false

def ranges : Text → List CharRange
  | [] => []
  | [a] => [⟨a, a⟩]
  | [a, b] => [⟨a, a⟩, ⟨b, b⟩]
  | a :: b :: c :: r => if b == '-' then ⟨a, c⟩ :: ranges r else ⟨a, a⟩ :: ranges (b :: c :: r)

def brackets? (r : Text) : Option (Wildcard × Nat) :=
  let negated := r.head? == some '!'
  let r := if negated then r.drop 1 else r
  match r with
  | [] => none
  | first :: rest =>
      let more := rest.takeWhile (· ≠ ']')
      if more.length < rest.length then
        some (.oneOf negated (ranges (first :: more)), more.length + if negated then 3 else 2)
      else none

end Wildcard

inductive Segment where
  | literal (name : Text)
  | wildcards (ws : List Wildcard)
  | anyDepth
  deriving DecidableEq, Repr

namespace Segment

def elements? : Text → Option (List Wildcard)
  | [] => some []
  | c :: r =>
      if c == '?' then (elements? r).map (.anyChar :: ·)
      else if c == '*' then
        if r.head? == some '*' then none else (elements? r).map (.anyRun :: ·)
      else if c == '[' then
        match Wildcard.brackets? r with
        | some (w, n) => (elements? (r.drop n)).map (w :: ·)
        | none => none
      else (elements? r).map (.char c :: ·)
termination_by t => t.length
decreasing_by all_goals simp; try omega

def literal? : List Wildcard → Option Text
  | [] => some []
  | .char c :: ws => (literal? ws).map (c :: ·)
  | _ => none

def parse? (segment : Text) : Option Segment :=
  if segment = ['*', '*'] then some .anyDepth
  else (elements? segment).map fun ws =>
    match literal? ws with
    | some name => .literal name
    | none => .wildcards ws

def matchesName : Segment → Text → Bool
  | .literal n, name => n == name
  | .wildcards ws, name => Wildcard.matchesName ws name
  | .anyDepth, _ => true

def matchesSpecial : Segment → Text → Bool
  | .wildcards (.char '.' :: ws), name => Wildcard.matchesName (.char '.' :: ws) name
  | _, _ => false

def collapse : List Segment → List Segment
  | [] => []
  | s :: rest =>
      match s, collapse rest with
      | .anyDepth, .anyDepth :: later => .anyDepth :: later
      | s, later => s :: later

end Segment

structure InputPattern where
  absolute : Bool
  segments : List Segment
  directoryOnly : Bool
  deriving DecidableEq, Repr

namespace InputPattern

def parse? (pattern : Text) : Option InputPattern :=
  let absolute := pattern.head? == some '/'
  let body := if absolute then pattern.drop 1 else pattern
  let pieces := body.splitOnP Path.isSlash
  -- a slash at the end asks for a directory and is no segment
  let pieces := if pieces.getLast? == some [] then pieces.dropLast else pieces
  let segments := if pieces.isEmpty then some [Segment.literal []] else pieces.mapM Segment.parse?
  segments.map fun segments =>
    { absolute := absolute
      segments := Segment.collapse segments
      directoryOnly := pattern.getLast? == some '/' }

end InputPattern

mutual

def Node.visitAll (visit : Path → Text → Node → List Path) (path : Path) (name : Text) :
    Node → List Path
  | .file content => visit path name (.file content)
  | .directory entries =>
      visit path name (.directory entries) ++ visitEntries visit path entries

def visitEntries (visit : Path → Text → Node → List Path) (directory : Path) :
    List (Text × Node) → List Path
  | [] => []
  | (name, node) :: rest =>
      Node.visitAll visit (directory.join name) name node ++ visitEntries visit directory rest

end

namespace InputPattern

def entryPath (directory : Path) (name : Text) : Path :=
  if directory.components = [.current] then ⟨name⟩ else directory.join name

def expandFrom (fs : FileSystem) (directoryOnly : Bool) : List Segment → Path → Node → List Path
  | [], path, node => if directoryOnly && !node.isDirectory then [] else [path]
  | .literal name :: rest, path, node =>
      let next := entryPath path name
      if name = ['.'] || name = ['.', '.'] then
        if node.isDirectory then
          ((fs.node? next).map (expandFrom fs directoryOnly rest next)).getD []
        else []
      else ((fs.node? next).map (expandFrom fs directoryOnly rest next)).getD []
  | .wildcards ws :: rest, path, node =>
      let special := [['.', '.'], ['.']].flatMap fun name =>
        if node.isDirectory && Segment.matchesSpecial (.wildcards ws) name then
          let next := path.join name
          ((fs.node? next).map (expandFrom fs directoryOnly rest next)).getD []
        else []
      special ++ node.entries.flatMap fun (name, child) =>
        if Wildcard.matchesName ws name then
          expandFrom fs directoryOnly rest (entryPath path name) child
        else []
  | .anyDepth :: rest, path, node =>
      let visit (path : Path) (name : Text) (node : Node) : List Path :=
        match rest with
        | [] => if node.isDirectory then [path] else []
        | segment :: later =>
            if segment.matchesName name then expandFrom fs directoryOnly later path node else []
      node.entries.flatMap fun (name, child) =>
        Node.visitAll visit (entryPath path name) name child

def expand (fs : FileSystem) (p : InputPattern) : List Path :=
  let start : Path := ⟨if p.absolute then ['/'] else ['.']⟩
  ((fs.node? start).map (expandFrom fs p.directoryOnly p.segments start)).getD []

end InputPattern

end EmbeddedSql
