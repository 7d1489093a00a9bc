namespace EmbeddedSql.Decimal

def scaled (num den : Nat) (k : Int) : Nat × Nat :=
  if 0 ≤ k then (num * Nat.pow 10 k.toNat, den) else (num, den * Nat.pow 10 (-k).toNat)

/-- The reals that round to a positive double: the fractions `low / den` to `high / den` around
`num / den`, with both ends if `closed`. -/
structure Interval where
  num : Nat
  low : Nat
  high : Nat
  den : Nat
  closed : Bool

def Interval.ofBinary (m : Nat) (e : Int) (nearBelow : Bool) : Interval :=
  let shift (n : Nat) : Nat := if 2 ≤ e then n * Nat.pow 2 (e - 2).toNat else n
  { num := shift (4 * m)
    low := shift (4 * m - if nearBelow then 1 else 2)
    high := shift (4 * m + 2)
    den := if 2 ≤ e then 1 else Nat.pow 2 (2 - e).toNat
    closed := m % 2 = 0 }

def Interval.contains (i : Interval) (d : Nat) (k : Int) : Bool :=
  let (n, m) := scaled d 1 k
  if i.closed then i.low * m ≤ n * i.den && n * i.den ≤ i.high * m
  else i.low * m < n * i.den && n * i.den < i.high * m

def leadingPower (num den : Nat) : Int :=
  if den ≤ num then ((Nat.toDigits 10 (num / den)).length : Int) - 1
  else -(((List.range 400).find? fun j => den ≤ num * Nat.pow 10 j).getD 400 : Nat)

def Interval.withDigits? (i : Interval) (n : Nat) : Option (Nat × Int) :=
  let k := leadingPower i.num i.den - (n : Int) + 1
  let (num, den) := scaled i.num i.den (-k)
  let below := num / den
  let nearest := match i.contains below k, i.contains (below + 1) k with
    | true, true => some (if 2 * (num % den) ≤ den then below else below + 1)
    | true, false => some below
    | false, true => some (below + 1)
    | false, false => none
  nearest.map fun d => if d % 10 = 0 then (d / 10, k + 1) else (d, k)

def shortest (m : Nat) (e : Int) (nearBelow : Bool) : Nat × Int :=
  let i := Interval.ofBinary m e nearBelow
  ((List.range 17).findSome? fun n => i.withDigits? (n + 1)).getD (m, 0)

def positional (d : Nat) (k : Int) : String :=
  let digits := Nat.toDigits 10 d
  if 0 ≤ k then String.ofList (digits ++ List.replicate k.toNat '0' ++ ['.', '0'])
  else
    let places := (-k).toNat
    let padded := List.replicate (places + 1 - digits.length) '0' ++ digits
    let whole := padded.length - places
    String.ofList (padded.take whole ++ ['.'] ++ padded.drop whole)

def ofFloat (x : Float) : String :=
  let bits := x.toBits.toNat
  let one := Nat.pow 2 52
  let sign := if bits / one / 2048 = 1 then "-" else ""
  let exponent := bits / one % 2048
  let fraction := bits % one
  if exponent = 2047 then
    if fraction = 0 then sign ++ "inf" else "NaN"
  else if exponent = 0 && fraction = 0 then sign ++ "0.0"
  else
    let (d, k) :=
      if exponent = 0 then shortest fraction (-1074) false
      else shortest (one + fraction) ((exponent : Int) - 1075) (fraction = 0 && 1 < exponent)
    sign ++ positional d k

end EmbeddedSql.Decimal
