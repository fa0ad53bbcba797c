import GlyphRebase.Number.Binary64
import GlyphRebase.Number.Integer
import GlyphRebase.Toml.Scan

/-!
# Numerals

Whole numbers are decimal, with an optional sign and no superfluous zero in front, or have a prefix
for base sixteen, eight or two and no sign. A number with a fraction or an exponent is a double.
Single underscores may stand between digits. A numeral beyond 64 bits is refused, and so is a
positive one beyond every finite double.
-/

namespace GlyphRebase.Toml

open Scan

/-- A sign, if there is one. -/
def sign : Scan (List Char) := do
  return (← maybe (char fun c => c == '+' || c == '-')).toList

/-- A decimal whole number: its sign, and its digits without superfluous zeros. -/
def wholePart : Scan (List Char × List Char) := do
  let s ← sign
  if ← follows (word ['0']) then
    word ['0']
    return (s, ['0'])
  else return (s, ← digits isDigit)

/-- A number of 64 bits, if the digits are one. -/
def fitting (base : Nat) (cs : List Char) : Scan Int64 := fun rest =>
  (Number.readSigned base cs).toOption.map (·, rest)

/-- A whole number in a base that its prefix names. -/
def prefixed (letter : Char) (base : Nat) : Scan Int64 := do
  word ['0', letter]
  fitting base (← digits fun c => (Number.digit? base c).isSome)

/-- A whole number. -/
def wholeNumber : Scan Int64 :=
  prefixed 'x' 16 <|> prefixed 'o' 8 <|> prefixed 'b' 2 <|>
    (do let (s, ds) ← wholePart
        fitting 10 (s ++ ds))

/-- The value of decimal digits. -/
def digitsValue (ds : List Char) : Nat := ds.foldl (fun n c => n * 10 + (c.toNat - '0'.toNat)) 0

/-- An exponent. -/
def exponent : Scan Int := do
  let _ ← char fun c => c == 'e' || c == 'E'
  let s ← sign
  let value : Int := digitsValue (← digits isDigit)
  return if s = ['-'] then -value else value

/-- A fraction or an exponent, or both. -/
def fractionAndExponent : Scan (List Char × Int) :=
  (do return ([], ← exponent)) <|>
  (do word ['.']
      let ds ← digits isDigit
      return (ds, (← maybe exponent).getD 0))

/-- A double that is not finite. -/
def specialDouble : Scan Binary64 := do
  let s ← sign
  (do word ['i', 'n', 'f']; return .infinite (s == ['-'])) <|>
  (do word ['n', 'a', 'n']; return .nan)

/-- A double. -/
def double : Scan Binary64 :=
  (do let (s, whole) ← wholePart
      let (fraction, e) ← fractionAndExponent
      match Binary64.ofDecimal (s == ['-']) (digitsValue (whole ++ fraction))
          (e - fraction.length) with
      | .infinite false => failure
      | x => return x) <|>
  specialDouble

end GlyphRebase.Toml
