import EmbeddedSql.Token

namespace EmbeddedSql

def groupLength (depth : Nat) : List Token → Nat
  | [] => 0
  | t :: r =>
      if t.isOpening then 1 + groupLength (depth + 1) r
      else if t.isClosing then
        if depth ≤ 1 then 0 else 1 + groupLength (depth - 1) r
      else 1 + groupLength depth r

def groupTokens (ts : List Token) : List Token := ts.take (groupLength 1 ts)

def isSubquery (inner : List Token) : Bool :=
  match inner.find? (·.kind ≠ .comment) with
  | some t => t.isKeywordAmong ["SELECT".toList, "WITH".toList]
  | none => false

def containsSubquery : List Token → Bool
  | [] => false
  | t :: r => (t.isPunct '(' && isSubquery (groupTokens r)) || containsSubquery r

def statementsFrom (depth : Nat) : List Token → List (List Token)
  | [] => []
  | t :: r =>
      let depth := Token.depthAfter depth t
      if depth = 0 && t.isPunct ';' then [t] :: statementsFrom depth r
      else match statementsFrom depth r with
        | [] => [[t]]
        | s :: ss => (t :: s) :: ss

def splitStatements (ts : List Token) : List (List Token) := statementsFrom 0 ts

def firstStatementFrom? (depth : Nat) : List Token → Option Nat
  | [] => none
  | t :: r =>
      if depth = 0 && t.isPunct ';' then
        if r.any Token.isSignificant then some 1 else none
      else (firstStatementFrom? (Token.depthAfter depth t) r).map (· + 1)

structure ListItem where
  tokens : List Token
  comma : Option Token
  deriving DecidableEq, Repr

def itemsFrom (depth : Nat) : List Token → List ListItem
  | [] => [⟨[], none⟩]
  | t :: r =>
      let depth := Token.depthAfter depth t
      if depth = 0 && t.isPunct ',' then ⟨[], some t⟩ :: itemsFrom depth r
      else match itemsFrom depth r with
        | [] => [⟨[t], none⟩]
        | item :: items => ⟨t :: item.tokens, item.comma⟩ :: items

def splitList (ts : List Token) : List ListItem := itemsFrom 0 ts

def aliasFrom? (depth : Nat) : List Token → Option Nat
  | [] => none
  | t :: r =>
      let depth := Token.depthAfter depth t
      match aliasFrom? depth r with
      | some n => some (n + 1)
      | none => if depth = 0 && t.isKeywordNamed ['A', 'S'] then some 0 else none

def aliasPosition? (ts : List Token) : Option Nat := aliasFrom? 0 ts

def ListItem.endsInLineComment (item : ListItem) : Bool :=
  item.tokens.getLast?.any Token.isLineComment

structure Condition where
  op : Option Token
  tokens : List Token
  deriving DecidableEq, Repr

/-- Where in a chain a token stands: bracket depth, open `CASE` expressions outside brackets, and
whether a `BETWEEN` still waits for its `AND`. -/
structure ChainPosition where
  depth : Nat := 0
  caseDepth : Nat := 0
  inBetween : Bool := false
  deriving DecidableEq, Repr

namespace ChainPosition

def splitsAt (p : ChainPosition) (t : Token) : Bool :=
  p.depth = 0 && p.caseDepth = 0 &&
    (t.isKeywordNamed "OR".toList || (t.isKeywordNamed "AND".toList && !p.inBetween))

def next (p : ChainPosition) (t : Token) : ChainPosition :=
  let p :=
    if p.depth ≠ 0 then p
    else if t.isKeywordNamed "CASE".toList then { p with caseDepth := p.caseDepth + 1 }
    else if t.isKeywordNamed "END".toList then { p with caseDepth := p.caseDepth - 1 }
    else if t.isKeywordNamed "BETWEEN".toList then { p with inBetween := true }
    else if p.caseDepth = 0 && t.isKeywordNamed "AND".toList then { p with inBetween := false }
    else p
  { p with depth := Token.depthAfter p.depth t }

end ChainPosition

def conditionsFrom (p : ChainPosition) : List Token → List Condition
  | [] => [⟨none, []⟩]
  | t :: r =>
      if p.splitsAt t then
        match conditionsFrom p r with
        | [] => [⟨none, []⟩, ⟨some t, []⟩]
        | c :: cs => ⟨none, []⟩ :: ⟨some t, c.tokens⟩ :: cs
      else match conditionsFrom (p.next t) r with
        | [] => [⟨none, [t]⟩]
        | c :: cs => ⟨c.op, t :: c.tokens⟩ :: cs

def splitConditions (ts : List Token) : List Condition := conditionsFrom {} ts

end EmbeddedSql
