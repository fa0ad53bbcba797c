import GlyphRebase.Number.Binary64
import GlyphRebase.Number.Integer

/-!
# Shortest decimal texts

A double is written with the fewest decimal digits that read back to it. The numbers that read back
are those from halfway to the neighbour below to halfway to the neighbour above, the ends included
when the mantissa is even. `Binary64.shortest` looks for a decimal among them with one digit, with
two, and so on: on the grid of each length only the two neighbours of the value can be there.

How the digits are laid out is a `DecimalLayout`.
-/

namespace GlyphRebase

open Number

/-- The decimal `digits * 10 ^ exponent`. -/
structure Decimal where
  digits : Nat
  exponent : Int
  deriving DecidableEq, Repr

/-- Which of two equally near decimals is taken. -/
inductive Tie where
  /-- The greater. -/
  | up
  /-- The one whose last digit is even. -/
  | even
  deriving DecidableEq, Repr

/-- The decisions of a way of writing doubles. -/
structure DecimalLayout where
  /-- Is a number whose leading digit stands for `10 ^ e` written without an exponent? -/
  plain : Int → Bool
  /-- Has a whole number written without an exponent the fraction `.0`? -/
  pointZero : Bool
  /-- Which of two equally near decimals is taken. -/
  tie : Tie

namespace Binary64

/-- Compares `a * 10 ^ i` with `b * 2 ^ j`. -/
def compareScaled (a : Nat) (i : Int) (b : Nat) (j : Int) : Ordering :=
  compare (a * power 10 i * power 2 (-j)) (b * power 2 j * power 10 (-i))

/-- Does the decimal read back to the positive number `m * 2 ^ e`? -/
def readsBack (m : Nat) (e : Int) (d : Decimal) : Bool :=
  let below := if m = power 2 52 ∧ leastExponent < e then 4 * m - 1 else 4 * m - 2
  let low := compareScaled d.digits d.exponent below (e - 2)
  let high := compareScaled d.digits d.exponent (4 * m + 2) (e - 2)
  let ends := m % 2 == 0
  (low == .gt || ends && low == .eq) && (high == .lt || ends && high == .eq)

/-- The least `k`, among the three that the size of the number leaves, with
`m * 2 ^ e < 10 ^ k`. -/
def decimalScale (m : Nat) (e : Int) : Int :=
  let k := Int.fdiv ((m.log2 + e) * 30103) 100000
  if compareScaled 1 k m e = .gt then k
  else if compareScaled 1 (k + 1) m e = .gt then k + 1 else k + 2

/-- The nearest of the two decimals around `m * 2 ^ e` that end at `10 ^ g` and read back. -/
def onGrid? (tie : Tie) (m : Nat) (e g : Int) : Option Decimal :=
  let q := m * power 2 e * power 10 (-g) / (power 2 (-e) * power 10 g)
  let down : Decimal := ⟨q, g⟩
  let up : Decimal := ⟨q + 1, g⟩
  match readsBack m e down, readsBack m e up with
  | false, false => none
  | true, false => some down
  | false, true => some up
  | true, true =>
    match compareScaled (2 * q + 1) g (2 * m) e, tie with
    | .gt, _ => some down
    | .lt, _ => some up
    | .eq, .up => some up
    | .eq, .even => some (if q % 2 = 0 then down else up)

/-- The decimal without the zeros it ends in. -/
def stripZeros (digits : Nat) (exponent : Int) : Decimal :=
  if 0 < digits ∧ digits % 10 = 0 then stripZeros (digits / 10) (exponent + 1)
  else ⟨digits, exponent⟩
termination_by digits
decreasing_by omega

/-- The shortest decimal that reads back to `m * 2 ^ e`. Seventeen digits are always enough. -/
def shortest (tie : Tie) (m : Nat) (e : Int) : Decimal :=
  let k := decimalScale m e
  match (List.range 17).findSome? fun n => onGrid? tie m e (k - (n + 1 : Nat)) with
  | some d => stripZeros d.digits d.exponent
  | none => stripZeros (m * power 2 e * power 5 (-e)) (min e 0)

end Binary64

namespace Decimal

/-- `n` zeros. -/
def zeros (n : Nat) : List Char := List.replicate n '0'

/-- The decimal without an exponent. -/
def plain (d : Decimal) (pointZero : Bool) : List Char :=
  let ds := decimal d.digits
  if 0 ≤ d.exponent then
    ds ++ zeros d.exponent.toNat ++ (if pointZero then ['.', '0'] else [])
  else
    let places := (-d.exponent).toNat
    if places < ds.length then
      ds.take (ds.length - places) ++ '.' :: ds.drop (ds.length - places)
    else '0' :: '.' :: zeros (places - ds.length) ++ ds

/-- The decimal with one digit before the point and an exponent. -/
def scientific (d : Decimal) : List Char :=
  let ds := decimal d.digits
  let lead := d.exponent + ds.length - 1
  let fraction := if ds.length ≤ 1 then [] else '.' :: ds.drop 1
  let sign := if lead < 0 then ['-'] else []
  ds.take 1 ++ fraction ++ 'e' :: sign ++ decimal lead.natAbs

end Decimal

/-- The text of a double in a layout. -/
def DecimalLayout.write (layout : DecimalLayout) : Binary64 → String
  | .nan => "NaN"
  | .infinite negative => if negative then "-inf" else "inf"
  | .finite negative m e =>
    let d := if m = 0 then ⟨0, 0⟩ else Binary64.shortest layout.tie m e
    let lead := d.exponent + (decimal d.digits).length - 1
    let text := if layout.plain lead then d.plain layout.pointZero else d.scientific
    String.ofList (if negative then '-' :: text else text)

end GlyphRebase
