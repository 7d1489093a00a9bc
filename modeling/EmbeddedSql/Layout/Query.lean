import EmbeddedSql.Clause
import EmbeddedSql.Clause.Splitting
import EmbeddedSql.Layout.Writer
import EmbeddedSql.Token.Lexer

namespace EmbeddedSql.Layout

def inlineText (o : LayoutOptions) (ts : List Token) : Text :=
  (Writer.pushAll { inline := true } ts).finish o

def tooWide (o : LayoutOptions) (depth : Nat) (ts : List Token) : Bool :=
  o.lineLength < depth * o.indentWidth + (inlineText o ts).length

def needsBreak (ts : List Token) : Bool := ts.any Token.forcesBreak || containsSubquery ts

abbrev QueryWriter := Writer → List Token → Nat → Writer

def writeRun (query : QueryWriter) (depth : Nat) (w : Writer) : List Token → Writer
  | [] => w
  | t :: r =>
      if t.isPunct '(' && isSubquery (groupTokens r) then
        let w := w.push t
        let level := w.currentDepth
        let w := ((query w (groupTokens r) (level + 1)).newline level).setContinuation depth
        match _h : r.drop (groupLength 1 r) with
        | [] => w
        | close :: rest => writeRun query depth (w.push close) rest
      else writeRun query depth (w.push t) r
termination_by ts => ts.length
decreasing_by
  · have := congrArg List.length _h
    simp at this
    simp
    omega
  · simp

def writeTokens (query : QueryWriter) (depth : Nat) (w : Writer) (ts : List Token) : Writer :=
  writeRun query depth (w.setContinuation depth) ts

structure Row where
  leading : Option Token
  item : ListItem
  aliasAt : Option Nat
  deriving Repr

/-- The comma of an item that goes to the next line: any, if commas lead; else one after a comment
that takes the rest of its line. -/
def carriedComma (o : LayoutOptions) (item : ListItem) : Option Token :=
  match o.commaPosition with
  | .leading => item.comma
  | .trailing => if item.endsInLineComment then item.comma else none

def alignedAlias? (o : LayoutOptions) (kind : ClauseKind) (item : ListItem) : Option Nat :=
  (aliasPosition? item.tokens).filter fun n =>
    o.alignAliases && kind = .selectList && !needsBreak (item.tokens.take n)

def rows (o : LayoutOptions) (kind : ClauseKind) (items : List ListItem) : List Row :=
  (items.zip (none :: items.map (carriedComma o))).map fun (item, leading) =>
    ⟨leading, item, alignedAlias? o kind item⟩

def Row.aliasColumn? (o : LayoutOptions) (row : Row) : Option Nat :=
  row.aliasAt.map fun n => (inlineText o (row.leading.toList ++ row.item.tokens.take n)).length

def writeRow (o : LayoutOptions) (query : QueryWriter) (depth : Nat) (column : Nat) (w : Writer)
    (row : Row) : Writer :=
  let w := (w.newline depth).pushAll row.leading.toList
  let w := match row.aliasAt with
    | some n =>
        let w := (writeTokens query depth w (row.item.tokens.take n)).padTo column
        writeTokens query depth w (row.item.tokens.drop n)
    | none => writeTokens query depth w row.item.tokens
  if o.commaPosition = .trailing && !row.item.endsInLineComment then
    w.pushAll row.item.comma.toList
  else w

def splitsList (o : LayoutOptions) (depth : Nat) (c : Clause) : Bool :=
  !(c.kind = .groupBy && o.groupBySingleLine) &&
    ((c.kind ≠ .valuesList && decide (o.maxInlineColumns < (splitList c.body).length)) ||
      needsBreak c.body || tooWide o depth c.tokens)

def writeList (o : LayoutOptions) (query : QueryWriter) (depth : Nat) (w : Writer) (c : Clause) :
    Writer :=
  if splitsList o depth c then
    let rows := rows o c.kind (splitList c.body)
    let column := ((rows.filterMap (Row.aliasColumn? o)).max?).getD 0
    rows.foldl (writeRow o query (depth + 1) column) w
  else writeTokens query (depth + 1) w c.body

def splitsConditions (o : LayoutOptions) (depth : Nat) (c : Clause) : Bool :=
  decide (1 < (splitConditions c.body).length) &&
    (needsBreak c.body || decide (o.conditionWidth < (inlineText o c.body).length) ||
      tooWide o depth c.tokens)

def writeCondition (query : QueryWriter) (depth : Nat) (w : Writer) (c : Condition) : Writer :=
  let w := match c.op with
    | some op => (w.newline depth).push op
    | none => w
  writeTokens query depth w c.tokens

def writeConditions (o : LayoutOptions) (query : QueryWriter) (depth : Nat) (w : Writer)
    (c : Clause) : Writer :=
  if splitsConditions o depth c then
    (splitConditions c.body).foldl (writeCondition query (depth + 1)) w
  else writeTokens query (depth + 1) w c.body

def writeCommonTable (query : QueryWriter) (depth : Nat) (w : Writer) (item : ListItem) : Writer :=
  (writeTokens query (depth + 1) w item.tokens).pushAll item.comma.toList

def writeCommonTables (query : QueryWriter) (depth : Nat) (w : Writer) (c : Clause) : Writer :=
  match splitList c.body with
  | [] => w
  | item :: items =>
      items.foldl (fun w item => writeCommonTable query depth (w.newline depth) item)
        (writeCommonTable query depth w item)

def writeClause (o : LayoutOptions) (query : QueryWriter) (depth : Nat) (w : Writer) (c : Clause) :
    Writer :=
  let w := (((w.newline depth).setContinuation (depth + 1)).setParenSpace
    (c.kind = .insertInto)).pushAll c.head
  if c.kind.isList then writeList o query depth w c
  else if c.kind.isCondition then writeConditions o query depth w c
  else if c.kind = .commonTables then writeCommonTables query depth w c
  else writeTokens query (depth + 1) w c.body

def writeQuery (o : LayoutOptions) : (nesting : Nat) → QueryWriter
  | 0, w, ts, _ => w.pushAll ts
  | nesting + 1, w, ts, depth =>
      (splitClauses ts).foldl (writeClause o (writeQuery o nesting) depth) w

def lineText (o : LayoutOptions) (ts : List Token) : Text :=
  ((splitClauses ts).foldl
    (fun w c => (w.setParenSpace (c.kind = .insertInto)).pushAll c.tokens)
    ({ inline := true } : Writer)).finish o

def singleLine? (o : LayoutOptions) (ts : List Token) : Option Text :=
  if ts.any Token.forcesBreak then none
  else
    let line := lineText o ts
    if line.length ≤ o.lineLength then some line else none

def writeStatements (o : LayoutOptions) (statements : List (List Token)) : Writer :=
  statements.foldl (fun w s => writeQuery o s.length w s 0) {}

def format (o : LayoutOptions) (ts : List Token) : Text :=
  let statements := splitStatements (ts.filter Token.isSignificant)
  let line? := match statements with
    | [only] => singleLine? o only
    | _ => none
  match line? with
  | some line => line
  | none => (writeStatements o statements).finish o

end EmbeddedSql.Layout

namespace EmbeddedSql

def firstStatementLength? (ts : List Token) : Option Nat := firstStatementFrom? 0 ts

def Text.dropBytes (n : Nat) (t : Text) : Text := ((t.splitAtByte? n).map Prod.snd).getD []

def formatText (v : Vocabulary) (o : LayoutOptions) (scope : StatementScope) (sql : Text) : Text :=
  let tokens := v.tokenize sql
  let first := match scope with
    | .all => none
    | .first => do
        let n ← firstStatementLength? tokens
        let last ← tokens[n - 1]?
        pure (tokens.take n, last.offset + 1)
  match first with
  | none => Layout.format o tokens
  | some (head, stop) => (Layout.format o head).trimEndWhile (· == '\n') ++ sql.dropBytes stop

end EmbeddedSql
