import EmbeddedSql.Literal.Occurrence
import EmbeddedSql.Text.Basic

namespace EmbeddedSql

structure Path where
  spelling : Text
  deriving DecidableEq, Repr

inductive Component where
  | root
  | current
  | parent
  | name (n : Text)
  deriving DecidableEq, Repr

namespace Component

def rank : Component → Nat
  | .root => 0
  | .current => 1
  | .parent => 2
  | .name _ => 3

def compare (a b : Component) : Ordering :=
  match a, b with
  | .name m, .name n => List.compareLex Ord.compare m n
  | a, b => Ord.compare a.rank b.rank

end Component

namespace Path

def isSlash (c : Char) : Bool := c == '/'

def pieces (p : Path) : List Text := p.spelling.splitOnP isSlash

def isAbsolute (p : Path) : Bool := p.spelling.head? == some '/'

def laterComponent? (piece : Text) : Option Component :=
  if piece = [] || piece = ['.'] then none
  else if piece = ['.', '.'] then some .parent
  else some (.name piece)

def components (p : Path) : List Component :=
  match p.pieces with
  | [] => []
  | first :: later =>
      let start :=
        if p.isAbsolute then some .root
        else if first = ['.'] then some .current
        else laterComponent? first
      start.toList ++ later.filterMap laterComponent?

def compare (p q : Path) : Ordering := List.compareLex Component.compare p.components q.components

def insert (p : Path) : List Path → List Path
  | [] => [p]
  | q :: r =>
      match p.compare q with
      | .lt => p :: q :: r
      | .eq => q :: r
      | .gt => q :: insert p r

def fileName? (p : Path) : Option Text :=
  match p.components.getLast? with
  | some (.name n) => some n
  | _ => none

def extensionOf? (name : Text) : Option Text :=
  let back := name.reverse
  match back.dropWhile (· ≠ '.') with
  | [] => none
  | [_] => none
  | _ :: _ :: _ => some (back.takeWhile (· ≠ '.')).reverse

def extension? (p : Path) : Option Text := p.fileName?.bind extensionOf?

def language? (p : Path) : Option HostLanguage := p.extension?.bind HostLanguage.ofExtension?

def join (p : Path) (name : Text) : Path :=
  if p.spelling.isEmpty || p.spelling.getLast? == some '/' then ⟨p.spelling ++ name⟩
  else ⟨p.spelling ++ '/' :: name⟩

def trimPieces : List Text → List Text
  | [] => []
  | [first] => [first]
  | piece :: rest => if (laterComponent? piece).isNone then trimPieces rest else piece :: rest

def parent? (p : Path) : Option Path :=
  match trimPieces p.pieces.reverse with
  | [] => none
  | [first] => if p.isAbsolute || first.isEmpty then none else some ⟨[]⟩
  | _ :: rest =>
      match trimPieces rest with
      | [[]] => some ⟨if p.isAbsolute then ['/'] else []⟩
      | rest => some ⟨['/'].intercalate rest.reverse⟩

def ancestorsWithin : Nat → Path → List Path
  | 0, p => [p]
  | n + 1, p =>
      match p.parent? with
      | none => [p]
      | some q => p :: ancestorsWithin n q

def ancestors (p : Path) : List Path := ancestorsWithin p.pieces.length p

end Path

end EmbeddedSql
