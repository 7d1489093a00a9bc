import EmbeddedSql.Decimal
import EmbeddedSql.Text.Basic

namespace EmbeddedSql.Toml

inductive Value where
  | string (t : Text)
  | integer (n : Int)
  | float (x : Float)
  | boolean (b : Bool)
  | datetime (t : Text)
  | array (items : List Value)
  | table (entries : List (Text × Value))
  deriving Repr, Inhabited

abbrev Table := List (Text × Value)

def Table.get? (t : Table) (key : Text) : Option Value := t.lookup key

namespace Value

def get? (key : Text) : Value → Option Value
  | .table entries => Table.get? entries key
  | _ => none

def typeName : Value → String
  | .string _ => "string"
  | .integer _ => "integer"
  | .float _ => "float"
  | .boolean _ => "boolean"
  | .datetime _ => "datetime"
  | .array _ => "array"
  | .table _ => "table"

end Value

end EmbeddedSql.Toml
