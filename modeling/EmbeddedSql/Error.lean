import EmbeddedSql.Literal.Occurrence
import EmbeddedSql.Text.Printable
import EmbeddedSql.Toml.Value

namespace EmbeddedSql

inductive QuotingFault where
  | severalLines
  | endsInBackslash
  | containsDelimiter (delimiter : Text)
  | endsInQuote (quote : Char)
  deriving DecidableEq, Repr

def QuotingFault.message : QuotingFault → String
  | .severalLines => "formatted SQL spans several lines"
  | .endsInBackslash => "formatted SQL ends with a backslash"
  | .containsDelimiter d => "formatted SQL contains " ++ String.ofList d
  | .endsInQuote q => "formatted SQL ends with " ++ String.singleton q

inductive PatternFault where
  | unclosedClass
  | unclosedAlternates
  | unopenedAlternates
  | invalidRange (first last : Char)
  | danglingEscape
  deriving DecidableEq, Repr

def PatternFault.message : PatternFault → String
  | .unclosedClass => "unclosed character class; missing ']'"
  | .unclosedAlternates =>
      "unclosed alternate group; missing '\x7d' (maybe escape '\x7b' with '[\x7b]'?)"
  | .unopenedAlternates =>
      "unopened alternate group; missing '\x7b' (maybe escape '\x7d' with '[\x7d]'?)"
  | .invalidRange a b =>
      "invalid range; '" ++ String.singleton a ++ "' > '" ++ String.singleton b ++ "'"
  | .danglingEscape => "dangling '\\'"

inductive SettingType where
  | natural
  | boolean
  | string
  | sequence
  deriving DecidableEq, Repr

def SettingType.description : SettingType → String
  | .natural => "usize"
  | .boolean => "a boolean"
  | .string => "a string"
  | .sequence => "a sequence"

inductive ValueFault where
  | wrongType (got : Toml.Value) (expected : SettingType)
  | outOfRange (n : Int)
  | unknownChoice (value : Text) (choices : List String)
  | notText
  | emptyTable
  | severalEntries
  | entryNotTable (got : Toml.Value)
  | entryNotEmpty
  deriving Repr

def describeValue : Toml.Value → String
  | .string t | .datetime t => "string " ++ String.ofList t.quoted
  | .integer n => "integer `" ++ toString n ++ "`"
  | .float x => "floating point `" ++ Decimal.ofFloat x ++ "`"
  | .boolean b => "boolean `" ++ (if b then "true" else "false") ++ "`"
  | .array _ => "sequence"
  | .table _ => "map"

def describeChoices : List String → String
  | [] => "there are no variants"
  | [a] => "expected `" ++ a ++ "`"
  | [a, b] => "expected `" ++ a ++ "` or `" ++ b ++ "`"
  | choices => "expected one of " ++ ", ".intercalate (choices.map fun c => "`" ++ c ++ "`")

def ValueFault.message : ValueFault → String
  | .wrongType got expected =>
      "invalid type: " ++ describeValue got ++ ", expected " ++ expected.description
  | .outOfRange n => "invalid value: integer `" ++ toString n ++ "`, expected usize"
  | .unknownChoice value choices =>
      "unknown variant `" ++ String.ofList value ++ "`, " ++ describeChoices choices
  | .notText => "invalid type: unit variant, expected string only"
  | .emptyTable => "wanted exactly 1 element, found 0 elements"
  | .severalEntries => "wanted exactly 1 element, more than 1 element"
  | .entryNotTable got => "expected table, found " ++ got.typeName
  | .entryNotEmpty => "expected empty table"

inductive ReadFault where
  | isDirectory
  | notText
  | notFound
  deriving DecidableEq, Repr

def ReadFault.message : ReadFault → String
  | .isDirectory => "Is a directory (os error 21)"
  | .notText => "stream did not contain valid UTF-8"
  | .notFound => "No such file or directory (os error 2)"

inductive WriteFault where
  | notFound
  | denied
  deriving DecidableEq, Repr

def WriteFault.message : WriteFault → String
  | .notFound => "No such file or directory (os error 2)"
  | .denied => "Permission denied (os error 13)"

structure QuotingError where
  start : Nat
  stop : Nat
  style : QuoteStyle
  fault : QuotingFault
  deriving DecidableEq, Repr

def QuotingError.message (e : QuotingError) : String :=
  "cannot rewrite " ++ e.style.description ++ " literal at bytes " ++ toString e.start ++ ".." ++
    toString e.stop ++ ": " ++ e.fault.message

inductive SettingsError where
  | unknownDialect (name : Text)
  | unknownLanguage (name : Text)
  | invalidChoice (option : String) (value : Text)
  | fileNotFound (path : Text)
  | sectionNotTable (path : Text)
  | unknownOption (key : Text)
  | invalidValue (key : String) (fault : ValueFault)
  | invalidExclude (pattern : Text) (fault : PatternFault)
  deriving Repr

def SettingsError.message : SettingsError → String
  | .unknownDialect name => "Unknown dialect: " ++ String.ofList name
  | .unknownLanguage name => "Unknown language: " ++ String.ofList name
  | .invalidChoice option value => "Invalid " ++ option ++ ": " ++ String.ofList value
  | .fileNotFound path => "Config file not found: " ++ String.ofList path
  | .sectionNotTable path => "[tool.sqlembed] in " ++ String.ofList path ++ " must be a table"
  | .unknownOption key => "Unknown config option: " ++ String.ofList key
  | .invalidValue key fault => "Invalid value for " ++ key ++ ": " ++ fault.message ++ "\n"
  | .invalidExclude pattern fault =>
      let p := String.ofList pattern
      "Invalid exclude pattern " ++ p ++ ": error parsing glob '" ++ p ++ "': " ++ fault.message

inductive Error where
  | settings (e : SettingsError)
  | quoting (e : QuotingError)
  | read (e : ReadFault)
  | toml
  deriving Repr

def Error.message : Error → String
  | .settings e => "sqlembed config error: " ++ e.message
  | .quoting e => e.message
  | .read e => "IO error: " ++ e.message
  | .toml => "TOML parse error"

end EmbeddedSql
