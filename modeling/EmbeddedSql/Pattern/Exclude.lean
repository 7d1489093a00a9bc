import EmbeddedSql.Error
import EmbeddedSql.Files.Path

namespace EmbeddedSql

inductive Glob where
  | literal (c : Char)
  | anyByte
  | anyRun
  | leadingDirectories
  | everythingBelow
  | innerDirectories
  | oneOf (negated : Bool) (ranges : List (Char × Char))
  | alternatives (branches : List (List Glob))
  deriving Repr

namespace Glob

def isNothing : Glob → Bool
  | .alternatives [] => true
  | _ => false

def ofBranches (branches : List (List Glob)) : Glob :=
  .alternatives (branches.filter fun b => !b.all isNothing)

structure Group where
  before : List Glob
  branches : List (List Glob)

/-- The state of the reader: the open groups, innermost first, the elements of the current branch,
and the character before. -/
structure Reader where
  groups : List Group := []
  current : List Glob := []
  previous : Option Char := none

namespace Reader

def push (s : Reader) (g : Glob) : Reader := { s with current := s.current ++ [g] }

def isSlash (c : Option Char) : Bool := c == some '/'

def pushStars (s : Reader) (next : Option Char) : Reader × Bool :=
  let runs := ((s.push .anyRun).push .anyRun, false)
  let inGroup := !s.groups.isEmpty
  if s.current.isEmpty then
    if next.isNone || isSlash next then (s.push .leadingDirectories, next.isSome) else runs
  else if !isSlash s.previous &&
      !(inGroup && (s.previous == some ',' || s.previous == some Text.openBrace)) then runs
  else
    let atEnd := next.isNone || (inGroup && (next == some ',' || next == some Text.closeBrace))
    if !atEnd && !isSlash next then runs
    else
      let joined := match s.current.getLast? with
        | some .leadingDirectories => Glob.leadingDirectories
        | some .everythingBelow => .everythingBelow
        | _ => if atEnd then .everythingBelow else .innerDirectories
      ({ s with current := s.current.dropLast ++ [joined] }, !atEnd)

end Reader

structure Brackets where
  ranges : List (Char × Char) := []
  first : Bool := true
  inRange : Bool := false

def Brackets.read (b : Brackets) : Text → Except PatternFault (List (Char × Char) × Nat)
  | [] => .error .unclosedClass
  | c :: r =>
      if c == ']' && !b.first then
        .ok ((if b.inRange then ('-', '-') :: b.ranges else b.ranges).reverse, 1)
      else if c == '-' && !b.first && !b.inRange then
        (read { b with inRange := true } r).map fun (ranges, n) => (ranges, n + 1)
      else
        match b.inRange, b.ranges with
        | true, (low, _) :: ranges =>
            if c < low then .error (.invalidRange low c)
            else (read ⟨(low, c) :: ranges, false, false⟩ r).map fun (ranges, n) => (ranges, n + 1)
        | _, ranges =>
            (read ⟨(c, c) :: ranges, false, false⟩ r).map fun (ranges, n) => (ranges, n + 1)

def readFrom (s : Reader) : Text → Except PatternFault (List Glob)
  | [] => if s.groups.isEmpty then .ok s.current else .error .unclosedAlternates
  | c :: r =>
      let after (s : Reader) : Reader := { s with previous := some c }
      if c == '?' then readFrom (after (s.push .anyByte)) r
      else if c == '*' then
        match r with
        | '*' :: rest =>
            let (s, takesSlash) := s.pushStars rest.head?
            if takesSlash then readFrom { s with previous := rest.head? } (rest.drop 1)
            else readFrom (after s) rest
        | r => readFrom (after (s.push .anyRun)) r
      else if c == '[' then
        let negated := r.head? == some '!' || r.head? == some '^'
        let start := if negated then 1 else 0
        match Brackets.read {} (r.drop start) with
        | .error e => .error e
        | .ok (ranges, n) =>
            readFrom { s.push (.oneOf negated ranges) with previous := some ']' }
              (r.drop (start + n))
      else if c == Text.openBrace then
        readFrom (after { s with groups := ⟨s.current, []⟩ :: s.groups, current := [] }) r
      else if c == Text.closeBrace then
        match s.groups with
        | [] => .error .unopenedAlternates
        | g :: groups =>
            let group := Glob.ofBranches (s.current :: g.branches).reverse
            readFrom (after { s with groups := groups, current := g.before ++ [group] }) r
      else if c == ',' then
        match s.groups with
        | [] => readFrom (after (s.push (.literal c))) r
        | g :: groups =>
            let g := { g with branches := s.current :: g.branches }
            readFrom (after { s with groups := g :: groups, current := [] }) r
      else if c == Text.backslash then
        match r with
        | [] => .error .danglingEscape
        | d :: rest => readFrom { s.push (.literal d) with previous := some d } rest
      else readFrom (after (s.push (.literal c))) r
termination_by t => t.length
decreasing_by all_goals simp_all; try omega

def parse (pattern : Text) : Except PatternFault (List Glob) :=
  (readFrom {} pattern).map fun
    | [.leadingDirectories] => [.anyRun]
    | gs => gs

def encode (c : Char) : List UInt8 := String.utf8EncodeChar c

/-- Whether a byte belongs to a range of characters. The bytes of both ends count, and all between
the last byte of one and the first byte of the other. -/
def byteInRange (b : UInt8) (low high : Char) : Bool :=
  if low = high then (encode low).contains b
  else
    let bytes := (encode low, encode high)
    bytes.1.contains b || bytes.2.contains b ||
      (bytes.1.getLast?.any (· ≤ b) && bytes.2.head?.any (b ≤ ·))

def afterRun (k : List UInt8 → Bool) : List UInt8 → Bool
  | [] => k []
  | b :: r => k (b :: r) || afterRun k r

def afterSlash (k : List UInt8 → Bool) : List UInt8 → Bool
  | [] => false
  | b :: r => b == 0x2f && k r

def afterBytes (bytes : List UInt8) (k : List UInt8 → Bool) (t : List UInt8) : Bool :=
  bytes.isPrefixOf t && k (t.drop bytes.length)

mutual

def matchOne (k : List UInt8 → Bool) (t : List UInt8) : Glob → Bool
  | .literal c => afterBytes (encode c) k t
  | .anyByte => !t.isEmpty && k (t.drop 1)
  | .anyRun => afterRun k t
  | .leadingDirectories => k t || afterSlash k t || afterRun (afterSlash k) t
  | .everythingBelow => afterSlash (afterRun k) t
  | .innerDirectories => afterSlash k t || afterSlash (afterRun (afterSlash k)) t
  | .oneOf negated ranges =>
      t.head?.any (fun b => ranges.any (fun (low, high) => byteInRange b low high) != negated) &&
        k (t.drop 1)
  | .alternatives [] => k t
  | .alternatives (b :: bs) => matchAny k t (b :: bs)

def matchAll (k : List UInt8 → Bool) (t : List UInt8) : List Glob → Bool
  | [] => k t
  | g :: gs => matchOne (fun rest => matchAll k rest gs) t g

def matchAny (k : List UInt8 → Bool) (t : List UInt8) : List (List Glob) → Bool
  | [] => false
  | b :: bs => matchAll k t b || matchAny k t bs

end

def spelled? : List Glob → Option Text
  | [] => some []
  | .literal c :: gs => (spelled? gs).map (c :: ·)
  | _ => none

def endsInPoint (gs : List Glob) : Bool :=
  match gs.getLast? with
  | some (.literal '.') => true
  | _ => false

def asksForName (gs : List Glob) : Bool :=
  let (anywhere, body) := match gs with
    | .leadingDirectories :: rest => (true, rest)
    | gs => (false, gs)
  match spelled? body, body with
  | some name, _ => anywhere && !List.contains name '/'
  | none, .anyRun :: rest =>
      match spelled? rest with
      | some ending => ending == ['.']
      | none => endsInPoint gs
  | none, _ => endsInPoint gs

def matchesText (gs : List Glob) (t : Text) : Bool :=
  matchAll List.isEmpty (t.flatMap encode) gs && !(asksForName gs && t.getLast? == some '.')

end Glob

def excludePatterns (patterns : List Text) : Except Error (List (List Glob)) :=
  patterns.mapM fun pattern =>
    match Glob.parse pattern with
    | .ok gs => .ok gs
    | .error fault => .error (.settings (.invalidExclude pattern fault))

def isExcluded (patterns : List (List Glob)) (p : Path) : Bool :=
  patterns.any fun gs => Glob.matchesText gs p.spelling || p.fileName?.any (Glob.matchesText gs)

end EmbeddedSql
