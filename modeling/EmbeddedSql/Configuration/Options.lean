import EmbeddedSql.Error
import EmbeddedSql.Settings
import EmbeddedSql.Text.Case

namespace EmbeddedSql.Configuration

open Toml (Value)

def natural : Value → Except ValueFault Nat
  | .integer n => if n < 0 then .error (.outOfRange n) else .ok n.toNat
  | v => .error (.wrongType v .natural)

def boolean : Value → Except ValueFault Bool
  | .boolean b => .ok b
  | v => .error (.wrongType v .boolean)

def string : Value → Except ValueFault Text
  | .string t | .datetime t => .ok t
  | v => .error (.wrongType v .string)

def strings : Value → Except ValueFault (List Text)
  | .array items => items.mapM string
  | v => .error (.wrongType v .sequence)

def choice {α : Type} (names : List (String × α)) : Value → Except ValueFault α
  | .string t => named t
  | .table [] => .error .emptyTable
  | .table [(key, v)] => do
      let a ← named key
      match v with
      | .table [] => pure a
      | .table _ => .error .entryNotEmpty
      | v => .error (.entryNotTable v)
  | .table _ => .error .severalEntries
  | _ => .error .notText
where
  named (t : Text) : Except ValueFault α :=
    match choice? names t with
    | some a => .ok a
    | none => .error (.unknownChoice t (names.map Prod.fst))

abbrev Effect := Settings → Value → Except ValueFault Settings

def effect {α : Type} (read : Value → Except ValueFault α) (put : Settings → α → Settings) :
    Effect :=
  fun s v => (read v).map (put s)

def layoutEffect {α : Type} (read : Value → Except ValueFault α)
    (put : LayoutOptions → α → LayoutOptions) : Effect :=
  effect read fun s a => { s with layout := put s.layout a }

def signalEffect (put : SignalWords → List Text → SignalWords) : Effect :=
  effect strings fun s words => { s with signals := put s.signals words }

def options : List (String × Effect) :=
  [("line_length", layoutEffect natural fun o n => { o with lineLength := n }),
   ("indent_width", layoutEffect natural fun o n => { o with indentWidth := n }),
   ("dialect", effect string fun s t => { s with dialect := t }),
   ("keyword_case", layoutEffect (choice KeywordCase.names) fun o c => { o with keywordCase := c }),
   ("comma_position",
     layoutEffect (choice CommaPosition.names) fun o c => { o with commaPosition := c }),
   ("group_by_single_line", layoutEffect boolean fun o b => { o with groupBySingleLine := b }),
   ("align_aliases", layoutEffect boolean fun o b => { o with alignAliases := b }),
   ("multi_statement", effect (choice StatementScope.names) fun s c => { s with scope := c }),
   ("max_inline_columns", layoutEffect natural fun o n => { o with maxInlineColumns := n }),
   ("condition_width", layoutEffect natural fun o n => { o with conditionWidth := n }),
   ("name_keywords", signalEffect fun s ws => { s with name := ws }),
   ("statement_keywords", signalEffect fun s ws => { s with statement := ws }),
   ("structural_keywords", signalEffect fun s ws => { s with structural := ws }),
   ("extra_keywords", effect strings fun s ws => { s with extraKeywords := ws }),
   ("exclude", effect strings fun s ps => { s with exclude := ps })]

def lowercaseKeys (t : Toml.Table) : Toml.Table := t.map fun (key, v) => (key.lowercase, v)

def last? (t : Toml.Table) (key : Text) : Option Value := Toml.Table.get? t.reverse key

def apply (s : Settings) (t : Toml.Table) : Except SettingsError Settings :=
  let t := lowercaseKeys t
  match t.find? fun (key, _) => !(options.any fun o => o.1.toList == key) with
  | some (key, _) => .error (.unknownOption key)
  | none =>
      options.foldlM
        (fun s (name, effect) =>
          match last? t name.toList with
          | none => .ok s
          | some v => (effect s v).mapError (.invalidValue name))
        s

end EmbeddedSql.Configuration
