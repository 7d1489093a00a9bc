import EmbeddedSql.Text.Basic
import EmbeddedSql.Toml.Value

namespace EmbeddedSql.Toml

open Text

abbrev Reader (α : Type) := Text → Option (α × Text)

def isSpace (c : Char) : Bool := c == ' ' || c == '\t'

def skipSpaces (t : Text) : Text := t.dropWhile isSpace

def newline? : Text → Option Text
  | '\n' :: r => some r
  | '\r' :: '\n' :: r => some r
  | _ => none

def isPlainChar (c : Char) : Bool := c == '\t' || (32 ≤ c.toNat && c.toNat ≠ 127)

def hexValue (digits : Text) : Nat :=
  digits.foldl (fun n c =>
    n * 16 + (if c.isDigit then c.toNat - 48 else c.toLower.toNat - 87)) 0

def codePoint? (n : Nat) (t : Text) : Option (Char × Nat) :=
  let digits := t.take n
  let code := hexValue digits
  if digits.length = n && digits.all Char.isHexDigit && code.isValidChar then
    some (Char.ofNat code, n)
  else none

def escape? : Text → Option (Char × Nat)
  | 'b' :: _ => some ('\x08', 1)
  | 't' :: _ => some ('\t', 1)
  | 'n' :: _ => some ('\n', 1)
  | 'f' :: _ => some ('\x0c', 1)
  | 'r' :: _ => some ('\r', 1)
  | '\x22' :: _ => some (doubleQuote, 1)
  | '\x5c' :: _ => some (backslash, 1)
  | 'u' :: r => (codePoint? 4 r).map fun (c, n) => (c, n + 1)
  | 'U' :: r => (codePoint? 8 r).map fun (c, n) => (c, n + 1)
  | _ => none

def basicString : Reader Text
  | [] => none
  | c :: r =>
      if c == doubleQuote then some ([], r)
      else if c == backslash then
        match escape? r with
        | some (d, n) => (basicString (r.drop n)).map fun (t, rest) => (d :: t, rest)
        | none => none
      else if isPlainChar c then (basicString r).map fun (t, rest) => (c :: t, rest)
      else none
termination_by t => t.length
decreasing_by all_goals simp; try omega

def literalString : Reader Text
  | [] => none
  | c :: r =>
      if c == singleQuote then some ([], r)
      else if isPlainChar c then (literalString r).map fun (t, rest) => (c :: t, rest)
      else none

def skipLines : Text → Text
  | [] => []
  | [c] => if isSpace c || c == '\n' then [] else [c]
  | c :: d :: r =>
      if isSpace c || c == '\n' then skipLines (d :: r)
      else if c == '\r' && d == '\n' then skipLines r
      else c :: d :: r

def continuation? (r : Text) : Option Text := (newline? (skipSpaces r)).map skipLines

def tripleEnd? (quote : Char) (t : Text) : Option (Text × Text) :=
  let n := (t.takeWhile (· == quote)).length
  if 3 ≤ n && n ≤ 5 then some (List.replicate (n - 3) quote, t.drop n) else none

def tripleString (quote : Char) : Reader Text
  | [] => none
  | c :: r =>
      if c == quote && startsWith r [quote, quote] then tripleEnd? quote (c :: r)
      else if c == backslash && quote == doubleQuote then
        match escape? r with
        | some (d, n) =>
            (tripleString quote (r.drop n)).map fun (t, rest) => (d :: t, rest)
        | none =>
            match continuation? r with
            | some later => tripleString quote (r.drop (r.length - later.length))
            | none => none
      else if c == '\r' then
        if r.head? == some '\n' then tripleString quote r else none
      else if c == '\n' || isPlainChar c then
        (tripleString quote r).map fun (t, rest) => (c :: t, rest)
      else none
termination_by t => t.length
decreasing_by all_goals simp; try omega

def lineString : Reader Text
  | c :: r =>
      if c == doubleQuote then basicString r
      else if c == singleQuote then literalString r
      else none
  | [] => none

def string : Reader Text
  | [] => none
  | c :: r =>
      if (c == doubleQuote || c == singleQuote) && startsWith r [c, c] then
        let body := r.drop 2
        tripleString c ((newline? body).getD body)
      else lineString (c :: r)

def digits (isDigit : Char → Bool) : Reader Text
  | [] => none
  | c :: r =>
      if isDigit c then
        match r with
        | '_' :: r => (digits isDigit r).map fun (t, rest) => (c :: t, rest)
        | r =>
            if r.head?.any isDigit then (digits isDigit r).map fun (t, rest) => (c :: t, rest)
            else some ([c], r)
      else none

def decimalValue (t : Text) : Nat := t.foldl (fun n c => n * 10 + (c.toNat - 48)) 0

def wholeDigits : Reader Text
  | '0' :: r => some (['0'], r)
  | t => digits Char.isDigit t

def integer? (n : Int) : Option Value :=
  if -9223372036854775808 ≤ n && n ≤ 9223372036854775807 then some (.integer n) else none

def basedInteger (isDigit : Char → Bool) (base : Nat) (t : Text) : Option (Value × Text) := do
  let (ds, rest) ← digits isDigit t
  let n := ds.foldl (fun n c => n * base + hexValue [c]) 0
  let v ← integer? n
  pure (v, rest)

def toDouble (m : Nat) (e : Int) : Float :=
  let size := (Nat.toDigits 10 m).length + e
  if m = 0 || size < -400 then 0.0
  else if 400 < size then Float.ofBits 0x7ff0000000000000
  else Float.ofScientific m (e < 0) e.natAbs

def exponent (t : Text) : Option (Int × Text) :=
  let (negative, t) := match t with
    | '-' :: r => (true, r)
    | '+' :: r => (false, r)
    | t => (false, t)
  (digits Char.isDigit t).map fun (ds, rest) =>
    let n : Int := decimalValue ds
    (if negative then -n else n, rest)

def number (negative : Bool) (t : Text) : Option (Value × Text) := do
  let (whole, r) ← wholeDigits t
  let (fraction, r, isFloat) ← match r with
    | '.' :: r => (digits Char.isDigit r).map fun (ds, rest) => (ds, rest, true)
    | r => some ([], r, false)
  let (power, r, isFloat) ← match r with
    | c :: rest =>
        if c == 'e' || c == 'E' then (exponent rest).map fun (n, rest) => (n, rest, true)
        else some (0, r, isFloat)
    | [] => some (0, r, isFloat)
  if isFloat then
    let x := toDouble (decimalValue (whole ++ fraction)) (power - fraction.length)
    if !negative && x.isInf then none
    else pure (.float (if negative then -x else x), r)
  else
    let n : Int := decimalValue whole
    let v ← integer? (if negative then -n else n)
    pure (v, r)

def word? (word : String) (t : Text) : Option Text :=
  if startsWith t word.toList then some (t.drop word.length) else none

def specialFloat? (negative : Bool) (t : Text) : Option (Value × Text) :=
  match word? "inf" t, word? "nan" t with
  | some r, _ =>
      some (.float (Float.ofBits (if negative then 0xfff0000000000000 else 0x7ff0000000000000)), r)
  | none, some r => some (.float (Float.ofBits 0x7ff8000000000000), r)
  | none, none => none

def signedNumber (t : Text) : Option (Value × Text) :=
  match t with
  | '0' :: 'x' :: r => basedInteger Char.isHexDigit 16 r
  | '0' :: 'o' :: r => basedInteger (fun c => '0' ≤ c && c ≤ '7') 8 r
  | '0' :: 'b' :: r => basedInteger (fun c => c == '0' || c == '1') 2 r
  | '+' :: r => (specialFloat? false r).orElse fun _ => number false r
  | '-' :: r => (specialFloat? true r).orElse fun _ => number true r
  | t => (specialFloat? false t).orElse fun _ => number false t

def field (n low high : Nat) (t : Text) : Option (Nat × Text) :=
  let ds := t.take n
  let value := decimalValue ds
  if ds.length = n && ds.all Char.isDigit && low ≤ value && value ≤ high then some (value, t.drop n)
  else none

def mark (c : Char) : Text → Option Text
  | d :: r => if c == d then some r else none
  | [] => none

def padded (width n : Nat) : Text :=
  let ds := Nat.toDigits 10 n
  List.replicate (width - ds.length) '0' ++ ds

def date (t : Text) : Option (Text × Text) := do
  let (year, r) ← field 4 0 9999 t
  let (month, r) ← field 2 1 12 (← mark '-' r)
  let leap := year % 4 = 0 && (year % 100 ≠ 0 || year % 400 = 0)
  let days :=
    if month = 2 then (if leap then 29 else 28)
    else if month = 4 || month = 6 || month = 9 || month = 11 then 30
    else 31
  let (day, r) ← field 2 1 days (← mark '-' r)
  pure (padded 4 year ++ '-' :: padded 2 month ++ '-' :: padded 2 day, r)

def secondFraction (t : Text) : Option (Text × Text) :=
  match t with
  | '.' :: r =>
      let ds := r.takeWhile Char.isDigit
      let shown := trimEndWhile (· == '0') (ds.take 9)
      if ds.isEmpty then none
      else some (if shown.isEmpty then [] else '.' :: shown, r.drop ds.length)
  | t => some ([], t)

def time (t : Text) : Option (Text × Text) := do
  let (hour, r) ← field 2 0 23 t
  let (minute, r) ← field 2 0 59 (← mark ':' r)
  let (second, r) ← field 2 0 60 (← mark ':' r)
  let (fraction, r) ← secondFraction r
  pure (padded 2 hour ++ ':' :: padded 2 minute ++ ':' :: padded 2 second ++ fraction, r)

def offset (t : Text) : Option (Text × Text) :=
  match t with
  | 'Z' :: r | 'z' :: r => some (['Z'], r)
  | c :: r =>
      if c == '+' || c == '-' then do
        let (hours, r) ← field 2 0 23 r
        let (minutes, r) ← field 2 0 59 (← mark ':' r)
        let sign := if hours = 0 && minutes = 0 then '+' else c
        pure (sign :: padded 2 hours ++ ':' :: padded 2 minutes, r)
      else some ([], t)
  | [] => some ([], t)

def datetime (t : Text) : Option (Value × Text) :=
  if t.drop 2 |>.head? |> (· == some ':') then (time t).map fun (text, r) => (.datetime text, r)
  else do
    let (day, r) ← date t
    let announced := (r.drop 1).take 2 |>.all Char.isDigit
    let announced := announced && (r.drop 3).head? == some ':'
    match r with
    | c :: rest =>
        if c == 'T' || c == 't' || (c == ' ' && announced) then
          if announced then do
            let (hour, r) ← time rest
            let (distance, r) ← offset r
            pure (.datetime (day ++ 'T' :: hour ++ distance), r)
          else none
        else pure (.datetime day, r)
    | [] => pure (.datetime day, r)

def startsDatetime (t : Text) : Bool :=
  ((t.take 4).length = 4 && (t.take 4).all Char.isDigit && (t.drop 4).head? == some '-') ||
    ((t.take 2).length = 2 && (t.take 2).all Char.isDigit && (t.drop 2).head? == some ':')

def scalar (t : Text) : Option (Value × Text) :=
  match t with
  | [] => none
  | c :: _ =>
      if c == doubleQuote || c == singleQuote then (string t).map fun (s, r) => (.string s, r)
      else if c == 't' then (word? "true" t).map fun r => (.boolean true, r)
      else if c == 'f' then (word? "false" t).map fun r => (.boolean false, r)
      else if startsDatetime t then datetime t
      else signedNumber t

end EmbeddedSql.Toml
