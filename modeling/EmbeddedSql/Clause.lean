import EmbeddedSql.Token

namespace EmbeddedSql

inductive ClauseKind where
  | preamble
  | commonTables
  | selectList
  | fromTables
  | join
  | whereCondition
  | groupBy
  | havingCondition
  | orderBy
  | limit
  | offset
  | insertInto
  | valuesList
  | update
  | setList
  | deleteFrom
  | returning
  | setOperator
  deriving DecidableEq, Repr

def ClauseKind.isList : ClauseKind → Bool
  | .selectList | .groupBy | .orderBy | .returning | .setList | .valuesList => true
  | _ => false

def ClauseKind.isCondition : ClauseKind → Bool
  | .whereCondition | .havingCondition => true
  | _ => false

structure Clause where
  kind : ClauseKind
  head : List Token
  body : List Token
  deriving DecidableEq, Repr

namespace Clause

def tokens (c : Clause) : List Token := c.head ++ c.body

def joinModifiers : List Text :=
  ["NATURAL", "LEFT", "RIGHT", "FULL", "INNER", "CROSS", "OUTER"].map String.toList

def optional (next : Option Token) (words : List String) : Nat :=
  if next.any (·.isKeywordAmong (words.map String.toList)) then 1 else 0

/-- Whether the keyword `t` begins a clause: the kind, and how many of the tokens `r` after it
belong to the head. What stands before `t` decides where a word has a second use, as the `FROM` of
`IS DISTINCT FROM`. -/
def head? (previous : Option Token) (current : ClauseKind) (atStart : Bool) (t : Token)
    (r : List Token) : Option (ClauseKind × Nat) :=
  let after (word : String) : Bool := previous.any (·.isKeywordNamed word.toList)
  match String.ofList t.text.upper with
  | "SELECT" => some (.selectList, optional r.head? ["DISTINCT", "ALL"])
  | "FROM" => if after "DISTINCT" then none else some (.fromTables, 0)
  | "WHERE" => some (.whereCondition, 0)
  | "HAVING" => some (.havingCondition, 0)
  | "LIMIT" => some (.limit, 0)
  | "OFFSET" => some (.offset, 0)
  | "RETURNING" => some (.returning, 0)
  | "VALUES" => some (.valuesList, 0)
  | "GROUP" => if optional r.head? ["BY"] = 1 then some (.groupBy, 1) else none
  | "ORDER" => if optional r.head? ["BY"] = 1 then some (.orderBy, 1) else none
  | "WITH" => if atStart then some (.commonTables, optional r.head? ["RECURSIVE"]) else none
  | "INSERT" => some (.insertInto, optional r.head? ["INTO"])
  | "DELETE" => if after "ON" then none else some (.deleteFrom, optional r.head? ["FROM"])
  | "UPDATE" => if after "FOR" || after "DO" || after "ON" then none else some (.update, 0)
  | "SET" => if current = .update || after "UPDATE" then some (.setList, 0) else none
  | "UNION" | "INTERSECT" | "EXCEPT" => some (.setOperator, optional r.head? ["ALL", "DISTINCT"])
  | "JOIN" | "STRAIGHT_JOIN" => some (.join, 0)
  | _ =>
      let modifiers := r.takeWhile (·.isKeywordAmong joinModifiers)
      if joinModifiers.contains t.text.upper &&
          optional (r.drop modifiers.length).head? ["JOIN"] = 1 then
        some (.join, modifiers.length + 1)
      else none

/-- The rest of the current clause's body and the clauses after it. `atStart` says that only
comments have been read so far, `previous` is the token just read, and clauses begin outside
brackets only. -/
def splitFrom (current : ClauseKind) (atStart : Bool) (previous : Option Token) (depth : Nat) :
    List Token → List Token × List Clause
  | [] => ([], [])
  | t :: r =>
      let start := if depth = 0 && t.isKeyword then head? previous current atStart t r else none
      match start with
      | some (kind, n) =>
          let head := t :: r.take n
          let (body, clauses) := splitFrom kind false head.getLast? depth (r.drop n)
          ([], ⟨kind, head, body⟩ :: clauses)
      | none =>
          let (body, clauses) := splitFrom current (atStart && t.kind = .comment) (some t)
            (Token.depthAfter depth t) r
          (t :: body, clauses)
termination_by ts => ts.length
decreasing_by all_goals simp; try omega

end Clause

def splitClauses (ts : List Token) : List Clause :=
  match Clause.splitFrom .preamble true none 0 ts with
  | ([], clauses) => clauses
  | (body, clauses) => ⟨.preamble, [], body⟩ :: clauses

end EmbeddedSql
