import EmbeddedSql.Text.Basic

namespace EmbeddedSql

inductive Dialect where
  | ansi
  | postgres
  | mysql
  | sqlite
  deriving DecidableEq, Repr

namespace Dialect

def name : Dialect → String
  | .ansi => "ansi"
  | .postgres => "postgres"
  | .mysql => "mysql"
  | .sqlite => "sqlite"

def names : List (String × Dialect) :=
  [("ansi", .ansi), ("polyglot", .ansi), ("postgres", .postgres), ("postgresql", .postgres),
   ("mysql", .mysql), ("mariadb", .mysql), ("sqlite", .sqlite)]

def ofName? (name : Text) : Option Dialect :=
  (names.find? fun entry => entry.1.toList == name.lower).map Prod.snd

def sharedKeywords : List Text :=
  ["ADD", "ALL", "ALTER", "AND", "ANY", "AS", "ASC", "BETWEEN", "BY", "CASCADE", "CASE",
   "CHECK", "COLUMN", "CONFLICT", "CONSTRAINT", "CREATE", "CROSS", "CURRENT", "DEFAULT",
   "DELETE", "DESC", "DISTINCT", "DO", "DROP", "ELSE", "END", "EXCEPT", "EXISTS", "FALSE",
   "FETCH", "FILTER", "FOLLOWING", "FOR", "FOREIGN", "FROM", "FULL", "GROUP", "HAVING", "IF",
   "IN", "INDEX", "INNER", "INSERT", "INTERSECT", "INTO", "IS", "JOIN", "KEY", "LATERAL",
   "LEFT", "LIKE", "LIMIT", "NATURAL", "NOT", "NOTHING", "NULL", "NULLS", "OFFSET", "ON",
   "ONLY", "OR", "ORDER", "OUTER", "OVER", "PARTITION", "PRECEDING", "PRIMARY", "RANGE",
   "RECURSIVE", "REFERENCES", "REPLACE", "RIGHT", "ROWS", "SELECT", "SET", "SOME", "TABLE",
   "THEN", "TRUE", "TRUNCATE", "UNBOUNDED", "UNION", "UNIQUE", "UPDATE", "USING", "VALUES",
   "VIEW", "WHEN", "WHERE", "WINDOW", "WITH"].map String.toList

def ownKeywords : Dialect → List Text
  | .ansi => []
  | .postgres =>
      ["ILIKE", "RETURNING", "SIMILAR", "MATERIALIZED", "CONCURRENTLY",
       "EXCLUDED"].map String.toList
  | .mysql =>
      ["AUTO_INCREMENT", "DUPLICATE", "IGNORE", "REGEXP", "RLIKE", "STRAIGHT_JOIN",
       "DIV"].map String.toList
  | .sqlite =>
      ["AUTOINCREMENT", "GLOB", "PRAGMA", "RETURNING", "ROWID", "VACUUM",
       "ABORT"].map String.toList

end Dialect

structure Vocabulary where
  dialect : Dialect := .ansi
  extra : List Text := []
  deriving Repr

def Vocabulary.reserves (v : Vocabulary) (word : Text) : Bool :=
  let word := word.upper
  Dialect.sharedKeywords.contains word || v.dialect.ownKeywords.contains word ||
    v.extra.any fun w => w.upper == word

end EmbeddedSql
