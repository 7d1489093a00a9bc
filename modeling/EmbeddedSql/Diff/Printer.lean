import EmbeddedSql.Diff.Compact
import EmbeddedSql.Files.Path

namespace EmbeddedSql.Diff

inductive Mark where
  | kept
  | removed
  | added
  deriving DecidableEq, Repr

def markedLines (old new : List Text) (removed added : List (Mark × Text)) :
    List Edit → List (Mark × Text)
  | [] => removed ++ added
  | .equal i _ n :: es =>
      removed ++ added ++ (slice old i n).map (fun l => (Mark.kept, l)) ++
        markedLines old new [] [] es
  | .delete i _ n :: es =>
      markedLines old new (removed ++ (slice old i n).map fun l => (.removed, l)) added es
  | .insert _ j n :: es =>
      markedLines old new removed (added ++ (slice new j n).map fun l => (.added, l)) es

def lines : Text → List Text
  | [] => []
  | [c] => [[c]]
  | c :: d :: r =>
      if c == '\r' && d == '\n' then [c, d] :: lines r
      else if c == '\n' || c == '\r' then [c] :: lines (d :: r)
      else match lines (d :: r) with
        | [] => [[c]]
        | l :: ls => (c :: l) :: ls

def compare (before after : Text) : List (Mark × Text) :=
  let old := lines before
  let new := lines after
  markedLines old new [] [] (compact old new (edits (old.length + new.length + 1) old new 0 0))

def Mark.sign : Mark → Char
  | .kept => ' '
  | .removed => '-'
  | .added => '+'

def rendition (code : String) : Text := Char.ofNat 27 :: '[' :: code.toList ++ ['m']

def Mark.color : Mark → Text
  | .kept => rendition "0"
  | .removed => rendition "0" ++ rendition "31"
  | .added => rendition "0" ++ rendition "32"

def isEnded (line : Text) : Bool := line.getLast? == some '\n' || line.getLast? == some '\r'

def printLine (color : Bool) (mark : Mark) (line : Text) : Text :=
  (if color then mark.color else []) ++ mark.sign :: line ++
    (if isEnded line then [] else ['\n', '\n'])

def print (color : Bool) (path : Path) (before after : Text) : Text :=
  "--- ".toList ++ path.spelling ++ "\n+++ ".toList ++ path.spelling ++ ['\n'] ++
    (compare before after).flatMap (fun (mark, line) => printLine color mark line) ++
    (if color then rendition "0" else [])

end EmbeddedSql.Diff
