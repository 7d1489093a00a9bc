import EmbeddedSql.Files.Path
import EmbeddedSql.Settings

namespace EmbeddedSql.CommandLine

structure Request where
  inputs : List Path := []
  config : Option Path := none
  language : Text := "python".toList
  lineLength : Option Nat := none
  indentWidth : Option Nat := none
  dialect : Option Text := none
  keywordCase : Option KeywordCase := none
  commaPosition : Option CommaPosition := none
  scope : Option StatementScope := none
  maxInlineColumns : Option Nat := none
  conditionWidth : Option Nat := none
  groupBySingleLine : Bool := false
  alignAliases : Bool := false
  exclude : List Text := []
  check : Bool := false
  diff : Bool := false
  console : ConsoleOptions := {}
  threads : Nat := 0
  singleProcess : Bool := false
  deriving DecidableEq, Repr

namespace Request

def readsInput (r : Request) : Bool := r.inputs.map Path.spelling = [['-']]

def layout (r : Request) (o : LayoutOptions) : LayoutOptions where
  lineLength := r.lineLength.getD o.lineLength
  indentWidth := r.indentWidth.getD o.indentWidth
  keywordCase := r.keywordCase.getD o.keywordCase
  commaPosition := r.commaPosition.getD o.commaPosition
  groupBySingleLine := o.groupBySingleLine || r.groupBySingleLine
  alignAliases := o.alignAliases || r.alignAliases
  maxInlineColumns := r.maxInlineColumns.getD o.maxInlineColumns
  conditionWidth := r.conditionWidth.getD o.conditionWidth

def apply (r : Request) (s : Settings) : Settings :=
  { s with
    layout := r.layout s.layout
    console := r.console
    dialect := r.dialect.getD s.dialect
    scope := r.scope.getD s.scope
    exclude := if r.exclude.isEmpty then s.exclude else r.exclude
    check := r.check
    diff := r.diff
    threads := r.threads
    singleProcess := r.singleProcess }

end Request

end EmbeddedSql.CommandLine
