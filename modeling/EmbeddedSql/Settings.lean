import EmbeddedSql.Text.Basic

namespace EmbeddedSql

inductive KeywordCase where
  | upper
  | lower
  | preserve
  deriving DecidableEq, Repr

inductive CommaPosition where
  | trailing
  | leading
  deriving DecidableEq, Repr

inductive StatementScope where
  | all
  | first
  deriving DecidableEq, Repr

def KeywordCase.names : List (String × KeywordCase) :=
  [("upper", .upper), ("lower", .lower), ("preserve", .preserve)]

def CommaPosition.names : List (String × CommaPosition) :=
  [("end", .trailing), ("start", .leading)]

def StatementScope.names : List (String × StatementScope) :=
  [("all", .all), ("first", .first)]

def choice? {α : Type} (names : List (String × α)) (value : Text) : Option α :=
  (names.find? fun entry => entry.1.toList == value).map Prod.snd

def choiceIgnoringCase? {α : Type} (names : List (String × α)) (value : Text) : Option α :=
  choice? names value.lower

structure LayoutOptions where
  lineLength : Nat := 80
  indentWidth : Nat := 2
  keywordCase : KeywordCase := .upper
  commaPosition : CommaPosition := .trailing
  groupBySingleLine : Bool := false
  alignAliases : Bool := false
  maxInlineColumns : Nat := 3
  conditionWidth : Nat := 40
  deriving DecidableEq, Repr

structure SignalWords where
  name : List Text := [['s', 'q', 'l']]
  statement : List Text :=
    ["SELECT", "INSERT", "UPDATE", "DELETE", "WITH", "CREATE", "ALTER", "DROP"].map String.toList
  structural : List Text := ["FROM", "WHERE", "JOIN", "VALUES", "SET"].map String.toList
  deriving DecidableEq, Repr

structure ConsoleOptions where
  verbose : Bool := false
  quiet : Bool := false
  noProgressBar : Bool := false
  noColor : Bool := false
  forceColor : Bool := false
  deriving DecidableEq, Repr

structure Settings where
  layout : LayoutOptions := {}
  signals : SignalWords := {}
  console : ConsoleOptions := {}
  dialect : Text := ['a', 'n', 's', 'i']
  extraKeywords : List Text := []
  scope : StatementScope := .all
  exclude : List Text := []
  check : Bool := false
  diff : Bool := false
  threads : Nat := 0
  singleProcess : Bool := false
  deriving DecidableEq, Repr

namespace ConsoleOptions

def showsColor (o : ConsoleOptions) (environmentOptsOut : Bool) : Bool :=
  o.forceColor || (!o.noColor && !environmentOptsOut)

def showsProgress (o : ConsoleOptions) (fileCount : Nat) : Bool :=
  !o.noProgressBar && !o.quiet && !o.verbose && decide (1 < fileCount)

end ConsoleOptions

end EmbeddedSql
