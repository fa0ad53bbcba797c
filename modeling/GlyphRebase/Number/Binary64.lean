/-!
# Double-precision numbers

The binary floating-point numbers of 64 bits, as exact values: a finite one is `mantissa * 2 ^
exponent` with a sign. All arithmetic is on naturals and integers, so nothing here rounds but
`ofQuotient`, which gives the nearest number of the format and breaks a tie towards the even
mantissa.
-/

namespace GlyphRebase

/-- A double-precision number. -/
inductive Binary64 where
  /-- Not a number. -/
  | nan
  /-- Beyond every finite number, on one side. -/
  | infinite (negative : Bool)
  /-- The value `mantissa * 2 ^ exponent`, negated if the sign says so. The mantissa lies below
  `2 ^ 53`; the exponent is at least `-1074`, and exactly that if the mantissa is below `2 ^ 52`. -/
  | finite (negative : Bool) (mantissa : Nat) (exponent : Int)
  deriving DecidableEq, Repr

namespace Binary64

/-- The least exponent. -/
def leastExponent : Int := -1074

/-- The greatest exponent of a finite number. -/
def greatestExponent : Int := 971

/-- A power of a base, or one if the exponent is negative. -/
def power (base : Nat) (exponent : Int) : Nat := Nat.pow base exponent.toNat

/-- The quotient rounded to the nearest whole number, a tie to the even one. -/
def nearestEven (num den : Nat) : Nat :=
  let q := num / den
  let r := num % den
  if 2 * r < den then q
  else if den < 2 * r then q + 1
  else if q % 2 = 0 then q else q + 1

/-- The number nearest to `num / den`. -/
def ofQuotient (negative : Bool) (num den : Nat) : Binary64 :=
  if num = 0 then .finite negative 0 leastExponent
  else
    let l : Int := num.log2 - den.log2
    let top : Int := if num * power 2 (-l) < den * power 2 l then l else l + 1
    let e := max (top - 53) leastExponent
    let m := nearestEven (num * power 2 (-e)) (den * power 2 e)
    let (m, e) := if m = power 2 53 then (power 2 52, e + 1) else (m, e)
    if greatestExponent < e then .infinite negative else .finite negative m e

/-- The number nearest to `digits * 10 ^ exponent`. Exponents far outside the format are not
raised to a power: what they give is an infinity or zero. -/
def ofDecimal (negative : Bool) (digits : Nat) (exponent : Int) : Binary64 :=
  if digits = 0 then .finite negative 0 leastExponent
  else if 400 < exponent then .infinite negative
  else if exponent + digits.log2 / 3 < -400 then .finite negative 0 leastExponent
  else ofQuotient negative (digits * power 10 exponent) (power 10 (-exponent))

/-- Is the number zero, of either sign? -/
def isZero : Binary64 → Bool
  | .finite _ m _ => m == 0
  | _ => false

/-- The nearest 64-bit integer, a half away from zero. What lies beyond the integers gives the
outermost one on its side, and what is no number gives zero. -/
def toInt64 : Binary64 → Int64
  | .nan => 0
  | .infinite negative => if negative then Int64.minValue else Int64.maxValue
  | .finite negative m e =>
    let den := power 2 (-e)
    let magnitude := (2 * (m * power 2 e) + den) / (2 * den)
    if negative then Int64.ofInt (max (-magnitude) Int64.minValue.toInt)
    else Int64.ofInt (min magnitude Int64.maxValue.toInt)

end Binary64

end GlyphRebase
