import EmbeddedSql.Error
import EmbeddedSql.Files.Path

namespace EmbeddedSql

inductive Content where
  | text (t : Text)
  | binary (bytes : List UInt8)
  deriving DecidableEq, Repr

def Content.ofBytes (bytes : ByteArray) : Content :=
  match String.fromUTF8? bytes with
  | some s => .text s.toList
  | none => .binary bytes.toList

inductive Node where
  | file (content : Content)
  | directory (entries : List (Text × Node))
  deriving Repr

abbrev Location := List Text

namespace Node

def isDirectory : Node → Bool
  | .directory _ => true
  | .file _ => false

def entries : Node → List (Text × Node)
  | .directory es => es
  | .file _ => []

def entry? (n : Node) (name : Text) : Option Node := n.entries.lookup name

def find? (n : Node) : Location → Option Node
  | [] => some n
  | name :: rest => (n.entry? name).bind fun child => child.find? rest

def insert : Node → Location → Node → Node
  | old, [], new =>
      match new, old with
      | .directory [], .directory es => .directory es
      | new, _ => new
  | old, name :: rest, new =>
      match old.entry? name with
      | some _ => .directory (old.entries.map fun (n, child) =>
          (n, if n = name then insert child rest new else child))
      | none => .directory (old.entries ++ [(name, insert (.directory []) rest new)])

end Node

structure FileSystem where
  root : Node := .directory []
  workingDirectory : Location := []
  readOnly : List Location := []
  deriving Repr

namespace FileSystem

/-- Follow the pieces of a path from a location. Only a directory can be passed through, and a piece
after a slash passes through what is before it. -/
def follow (root : Node) : Location → List Text → Option Location
  | location, [] => some location
  | location, piece :: rest =>
      match root.find? location with
      | some (.directory entries) =>
          if piece = [] || piece = ['.'] then follow root location rest
          else if piece = ['.', '.'] then follow root location.dropLast rest
          else if (entries.lookup piece).isSome then follow root (location ++ [piece]) rest
          else none
      | _ => none

def locate? (fs : FileSystem) (p : Path) : Option Location :=
  if p.spelling.isEmpty then none
  else follow fs.root (if p.isAbsolute then [] else fs.workingDirectory) p.pieces

def node? (fs : FileSystem) (p : Path) : Option Node := (fs.locate? p).bind fs.root.find?

def isFile (fs : FileSystem) (p : Path) : Bool := (fs.node? p).any fun n => !n.isDirectory

def isDirectory (fs : FileSystem) (p : Path) : Bool := (fs.node? p).any Node.isDirectory

def pathOf (location : Location) : Path := ⟨'/' :: ['/'].intercalate location⟩

def canonical? (fs : FileSystem) (p : Path) : Option Path := (fs.locate? p).map pathOf

def read (fs : FileSystem) (p : Path) : Except ReadFault Text :=
  match fs.node? p with
  | some (.file (.text t)) => .ok t
  | some (.file (.binary _)) => .error .notText
  | some (.directory _) => .error .isDirectory
  | none => .error .notFound

def isReadOnly (fs : FileSystem) (p : Path) : Bool := (fs.locate? p).any fs.readOnly.contains

def put (fs : FileSystem) (p : Path) (t : Text) : FileSystem :=
  match fs.locate? p with
  | some location => { fs with root := fs.root.insert location (.file (.text t)) }
  | none => fs

def write (fs : FileSystem) (p : Path) (t : Text) : Except WriteFault FileSystem :=
  if (fs.locate? p).isNone then .error .notFound
  else if fs.isReadOnly p then .error .denied
  else .ok (fs.put p t)

end FileSystem

end EmbeddedSql
