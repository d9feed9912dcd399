
/-!
# Binary floating point

Finite numbers of the 64-bit binary format, as sign, significand and exponent, and rounding
of exact quotients to the nearest of them, ties to the even significand.

* `Binary64.ofRatio?` : the number nearest to a quotient, `none` beyond the largest;
* `Binary64.numerator`, `Binary64.denominator` : the exact value as a quotient.
-/

namespace EmbeddedSolidity.Json

/-- The finite number `± significand · 2 ^ exponent`. The significand has at most 53 bits; it
has exactly 53 unless the exponent is the least one. -/
structure Binary64 where
  negative : Bool
  significand : Nat
  exponent : Int
deriving DecidableEq, Repr

namespace Binary64

/-- The least exponent. -/
def leastExponent : Int :=
  -1074

/-- The largest exponent. -/
def greatestExponent : Int :=
  971

/-- Zero with its sign. -/
def zero (negative : Bool) : Binary64 :=
  ⟨negative, 0, leastExponent⟩

/-- The quotient of naturals, rounded to the nearest, ties to even. -/
def roundQuotient (num den : Nat) : Nat :=
  let q := num / den
  let r := num % den
  if 2 * r < den then q
  else if 2 * r > den then q + 1
  else if q % 2 == 0 then q else q + 1

/-- The quotient `num / den` over `2 ^ e`, as a quotient of naturals. -/
def scaled (num den : Nat) (e : Int) : Nat × Nat :=
  if 0 ≤ e then (num, den <<< e.toNat) else (num <<< (-e).toNat, den)

/-- The exponent at which `num / den` has a significand of 53 bits. -/
def exponentOf (num den : Nat) : Int :=
  let guess : Int := (num.log2 : Int) - (den.log2 : Int) - 52
  let (n, d) := scaled num den guess
  let e := if n < d <<< 52 then guess - 1 else guess
  max e leastExponent

/-- The number nearest to `num / den`, if it is not beyond the largest finite one. -/
def ofRatio? (negative : Bool) (num den : Nat) : Option Binary64 :=
  if num == 0 then some (zero negative)
  else
    let e := exponentOf num den
    let (n, d) := scaled num den e
    let m := roundQuotient n d
    let (m, e) := if m == 1 <<< 53 then (1 <<< 52, e + 1) else (m, e)
    if e > greatestExponent then none else some ⟨negative, m, e⟩

/-- Numerator of the exact absolute value. -/
def numerator (x : Binary64) : Nat :=
  if 0 ≤ x.exponent then x.significand <<< x.exponent.toNat else x.significand

/-- Denominator of the exact absolute value. -/
def denominator (x : Binary64) : Nat :=
  if 0 ≤ x.exponent then 1 else 1 <<< (-x.exponent).toNat

/-- The absolute value times `y`, rounded. -/
def mul? (x y : Binary64) : Option Binary64 :=
  ofRatio? x.negative (x.numerator * y.numerator) (x.denominator * y.denominator)

/-- The absolute value over `y`, rounded. -/
def div? (x y : Binary64) : Option Binary64 :=
  ofRatio? x.negative (x.numerator * y.denominator) (x.denominator * y.numerator)

/-- The number nearest to `10 ^ k`; only asked for up to 308, where it is finite. -/
def powerOfTen (k : Nat) : Binary64 :=
  (ofRatio? false (Nat.pow 10 k) 1).getD (zero false)

end Binary64

end EmbeddedSolidity.Json
