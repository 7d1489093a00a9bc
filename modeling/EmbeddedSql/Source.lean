import EmbeddedSql.Layout.Query
import EmbeddedSql.Literal.Scan
import EmbeddedSql.Splice
import EmbeddedSql.Verdict

namespace EmbeddedSql

def Settings.vocabulary (s : Settings) : Except Error Vocabulary :=
  match Dialect.ofName? s.dialect with
  | some dialect => .ok ⟨dialect, s.extraKeywords⟩
  | none => .error (.settings (.unknownDialect s.dialect))

def formatString (s : Settings) (sql : Text) : Except Error Text := do
  let v ← s.vocabulary
  pure (formatText v s.layout s.scope sql)

def revise (v : Vocabulary) (s : Settings) (o : Occurrence) : Revision :=
  if (classify v s.signals o).isSql then
    let text := formatText v s.layout s.scope o.text
    let replacement :=
      if o.style.isBlock && o.text.head? == some '\n' && List.contains text '\n' then '\n' :: text
      else text
    ⟨o, replacement, replacement ≠ o.text⟩
  else .unchanged o

structure SourceOutcome where
  formatted : Text
  revisions : List Revision
  failures : List QuotingError
  deriving DecidableEq, Repr

def formatSourceWith (v : Vocabulary) (s : Settings) (language : HostLanguage) (source : Text) :
    SourceOutcome :=
  let revisions := (extract language source).map (revise v s)
  let spliced := splice source revisions
  ⟨spliced.text, revisions, spliced.failures⟩

def formatSource (s : Settings) (language : HostLanguage) (source : Text) :
    Except Error SourceOutcome := do
  let v ← s.vocabulary
  pure (formatSourceWith v s language source)

end EmbeddedSql
