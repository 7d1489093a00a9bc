import EmbeddedSql.CommandLine.Request

namespace EmbeddedSql.CommandLine

inductive Action where
  | flag (raise : Request → Request)
  | value (take : Request → Text → Option Request)
  | version
  | help

structure Switch where
  name : String
  letter : Option Char := none
  action : Action
  repeatable : Bool := false

def largestNumber : Nat := 18446744073709551615

def number? (t : Text) : Option Nat :=
  let digits := match t with
    | '+' :: r => r
    | r => r
  let n := digits.foldl (fun n c => 10 * n + (c.toNat - '0'.toNat)) 0
  if !digits.isEmpty && digits.all Char.isDigit && n ≤ largestNumber then some n else none

def path? (t : Text) : Option Path := if t.isEmpty then none else some ⟨t⟩

def taking {α : Type} (read? : Text → Option α) (put : Request → α → Request) : Action :=
  .value fun r t => (read? t).map (put r)

def consoleFlag (raise : ConsoleOptions → ConsoleOptions) : Action :=
  .flag fun r => { r with console := raise r.console }

def switches : List Switch :=
  [{ name := "check", action := .flag fun r => { r with check := true } },
   { name := "diff", action := .flag fun r => { r with diff := true } },
   { name := "line-length", letter := some 'l'
     action := taking number? fun r n => { r with lineLength := some n } },
   { name := "dialect", letter := some 'd'
     action := taking some fun r t => { r with dialect := some t } },
   { name := "keyword-case"
     action := taking (choice? KeywordCase.names) fun r c => { r with keywordCase := some c } },
   { name := "comma-position"
     action := taking (choice? CommaPosition.names) fun r c => { r with commaPosition := some c } },
   { name := "group-by-single-line"
     action := .flag fun r => { r with groupBySingleLine := true } },
   { name := "align-aliases", action := .flag fun r => { r with alignAliases := true } },
   { name := "multi-statement"
     action := taking (choice? StatementScope.names) fun r c => { r with scope := some c } },
   { name := "max-inline-columns"
     action := taking number? fun r n => { r with maxInlineColumns := some n } },
   { name := "condition-width"
     action := taking number? fun r n => { r with conditionWidth := some n } },
   { name := "indent-width"
     action := taking number? fun r n => { r with indentWidth := some n } },
   { name := "exclude", repeatable := true
     action := taking some fun r t => { r with exclude := r.exclude ++ [t] } },
   { name := "language", action := taking some fun r t => { r with language := t } },
   { name := "verbose", letter := some 'v'
     action := consoleFlag fun o => { o with verbose := true } },
   { name := "quiet", letter := some 'q', action := consoleFlag fun o => { o with quiet := true } },
   { name := "no-progressbar", action := consoleFlag fun o => { o with noProgressBar := true } },
   { name := "force-color", action := consoleFlag fun o => { o with forceColor := true } },
   { name := "no-color", action := consoleFlag fun o => { o with noColor := true } },
   { name := "threads", letter := some 't'
     action := taking number? fun r n => { r with threads := n } },
   { name := "single-process", action := .flag fun r => { r with singleProcess := true } },
   { name := "config", action := taking path? fun r p => { r with config := some p } },
   { name := "help", letter := some 'h', action := .help },
   { name := "version", letter := some 'V', action := .version }]

def Switch.ofName? (name : Text) : Option Switch := switches.find? fun s => s.name.toList == name

def Switch.ofLetter? (letter : Char) : Option Switch :=
  switches.find? fun s => s.letter == some letter

end EmbeddedSql.CommandLine
