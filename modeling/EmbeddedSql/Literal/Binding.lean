import EmbeddedSql.Literal.Occurrence
import EmbeddedSql.Text.Basic
import EmbeddedSql.Text.Letter

namespace EmbeddedSql.Binding

open Text

def isNameChar (c : Char) : Bool := isAlphanumeric c || c == '_' || c == '$' || c == '.'

def isBoundary (c : Char) : Bool :=
  c == '\n' || c == ';' || c == ',' || c == '(' || c == openBrace || c == '['

def nameBack (back : Text) : Text := (back.takeWhile isNameChar).reverse

def segmentBack (back : Text) : Text :=
  trimStart ((back.dropWhile isBlank).takeWhile fun c => !isBoundary c).reverse

def assignedBack? (back : Text) : Option Text :=
  if back.head?.any fun c => c == '=' || c == '!' || c == '<' || c == '>' then none
  else
    let back := match back with
      | c :: r => if c == ':' || c == '+' then r else c :: r
      | [] => []
    let segment := segmentBack back
    some (if List.contains segment ':' then trimEnd (segment.takeWhile (· ≠ ':')) else segment)

def propertyBack? (back : Text) : Option Text :=
  let segment := segmentBack back
  if back.head?.any (fun c => c == ':' || c == '?') || List.contains segment '?' then none
  else some segment

def targetBack? (language : HostLanguage) (back : Text) : Option Text :=
  match back.dropWhile fun c => isBlank c || c == '(' with
  | [] => none
  | c :: r =>
      if c == '=' then assignedBack? r
      else if c == ':' && language = .javaScript then propertyBack? r
      else none

def identifierBack? (language : HostLanguage) (back : Text) : Option Text :=
  match targetBack? language back with
  | none => none
  | some target =>
      let name := nameBack target.reverse
      if name.head?.any fun c => !c.isDigit && c ≠ '.' then some name else none

def tagBack? (back : Text) : Option Text :=
  let tag := nameBack back
  if tag.isEmpty || tag.getLast? == some '.' then none else some tag

end EmbeddedSql.Binding

namespace EmbeddedSql

def enclosingIdentifier? (language : HostLanguage) (before : Text) : Option Text :=
  Binding.identifierBack? language before.reverse

end EmbeddedSql
