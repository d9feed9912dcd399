import EmbeddedSolidity.Json.Binary64

/-!
# Shortest decimals

The text of a binary number has the fewest significant digits that read back as the same
number, and of those the nearest to its exact value.

The text is positional while the decimal point falls from four places before the first digit
to sixteen places after it, with `.0` behind a whole number; otherwise one digit stands before
the point and the exponent follows with its sign.
-/

namespace EmbeddedSolidity.Json

namespace Binary64

/-- A decimal `digits · 10 ^ exponent`. -/
structure Decimal where
  digits : Nat
  exponent : Int
deriving DecidableEq, Repr

/-- The exact absolute value and both ends of the interval of reals that round to it, over a
common denominator. -/
structure Interval where
  low : Nat
  mid : Nat
  high : Nat
  den : Nat
  /-- The ends belong to the interval. -/
  closed : Bool

/-- The interval of reals that round to `x`. -/
def interval (x : Binary64) : Interval :=
  let n := 4 * x.numerator
  let d := 4 * x.denominator
  -- a quarter of the last place, over the denominator `d`
  let unit := if 0 ≤ x.exponent then 1 <<< x.exponent.toNat else 1
  let below :=
    if x.significand == 1 <<< 52 && x.exponent > leastExponent then unit else 2 * unit
  ⟨n - below, n, n + 2 * unit, d, x.significand % 2 == 0⟩

/-- `digits · 10 ^ exponent` lies in the interval. -/
def Interval.contains (i : Interval) (t : Decimal) : Bool :=
  let (n, d) :=
    if 0 ≤ t.exponent then (t.digits * Nat.pow 10 t.exponent.toNat * i.den, 1)
    else (t.digits * i.den, Nat.pow 10 (-t.exponent).toNat)
  if i.closed then i.low * d ≤ n && n ≤ i.high * d else i.low * d < n && n < i.high * d

/-- Twice the distance of the value to `digits`, against the width of the grid: below,
above or in the middle between `digits` and `digits + 1`. -/
def nearer (i : Interval) (digits : Nat) (exponent : Int) : Bool :=
  let (n, d) :=
    if 0 ≤ exponent then (i.mid, Nat.pow 10 exponent.toNat * i.den)
    else (i.mid * Nat.pow 10 (-exponent).toNat, i.den)
  let rest := 2 * (n - digits * d)
  rest < d || (rest == d && digits % 2 == 0)

/-- The quotient of the value and `10 ^ exponent`, rounded down. -/
def grid (i : Interval) (exponent : Int) : Nat :=
  if 0 ≤ exponent then i.mid / (Nat.pow 10 exponent.toNat * i.den)
  else i.mid * Nat.pow 10 (-exponent).toNat / i.den

/-- The best decimal on the grid of `10 ^ exponent`, if one lies in the interval. -/
def onGrid? (i : Interval) (exponent : Int) : Option Decimal :=
  let digits := grid i exponent
  let down : Decimal := ⟨digits, exponent⟩
  let up : Decimal := ⟨digits + 1, exponent⟩
  match digits != 0 && i.contains down, i.contains up with
  | true, true => if nearer i digits exponent then some down else some up
  | true, false => some down
  | false, true => some up
  | false, false => none

/-- The first of the finer and finer grids, `count` of them, that has a decimal. -/
def search (i : Interval) : Nat → Int → Decimal
  | 0, exponent => ⟨grid i exponent, exponent⟩
  | count + 1, exponent => (onGrid? i exponent).getD (search i count (exponent - 1))

/-- Drop the zeros at the end of the digits. -/
def Decimal.strip : Nat → Decimal → Decimal
  | 0, t => t
  | fuel + 1, t =>
    if t.digits != 0 && t.digits % 10 == 0 then strip fuel ⟨t.digits / 10, t.exponent + 1⟩ else t

/-- A power of ten above the value. -/
def magnitude (x : Binary64) : Int :=
  let bits : Int := (x.numerator.log2 : Int) - (x.denominator.log2 : Int) + 1
  bits * 30103 / 100000 + 1

/-- The shortest decimal of a number that is not zero. -/
def shortest (x : Binary64) : Decimal :=
  (search x.interval 20 x.magnitude).strip 20

/-- The text of a decimal: positional from `0.00001` to below `10 ^ 16`. -/
def Decimal.text (t : Decimal) : String :=
  let digits := (Nat.toDigits 10 t.digits)
  let n : Int := digits.length
  let point := t.exponent + n
  if 0 ≤ t.exponent && point ≤ 16 then
    String.ofList (digits ++ List.replicate t.exponent.toNat '0' ++ ['.', '0'])
  else if 0 < point && point ≤ 16 then
    String.ofList (digits.take point.toNat ++ '.' :: digits.drop point.toNat)
  else if -5 < point && point ≤ 0 then
    String.ofList ('0' :: '.' :: List.replicate (-point).toNat '0' ++ digits)
  else
    let fraction := if digits.length == 1 then [] else '.' :: digits.drop 1
    let sign := if point - 1 < 0 then '-' else '+'
    String.ofList (digits.take 1 ++ fraction ++ 'e' :: sign ::
      Nat.toDigits 10 (point - 1).natAbs)

/-- The shortest text that reads back as the number. -/
def text (x : Binary64) : String :=
  let body := if x.significand == 0 then "0.0" else x.shortest.text
  if x.negative then "-" ++ body else body

end Binary64

end EmbeddedSolidity.Json
