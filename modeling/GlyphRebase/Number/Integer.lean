/-!
# Whole numbers in 64 bits

Reading and writing of signed 64-bit numbers. A text is read from left to right and refused at the
first character that rules it out: one that is no digit, or the digit that carries the value out of
range. So the fault named is the one met first.
-/

namespace GlyphRebase.Number

/-- The value of `c` as a digit of the given base, up to base sixteen. -/
def digit? (base : Nat) (c : Char) : Option Nat :=
  let value :=
    if '0' ≤ c ∧ c ≤ '9' then some (c.toNat - '0'.toNat)
    else if 'a' ≤ c ∧ c ≤ 'f' then some (c.toNat - 'a'.toNat + 10)
    else if 'A' ≤ c ∧ c ≤ 'F' then some (c.toNat - 'A'.toNat + 10)
    else none
  value.filter (· < base)

/-- Is `c` a decimal digit of ASCII? -/
def isDecimal (c : Char) : Bool := (digit? 10 c).isSome

/-- Is `c` a hexadecimal digit of ASCII, in either case? -/
def isHex (c : Char) : Bool := (digit? 16 c).isSome

/-- Why a text is no number. -/
inductive Fault where
  /-- There is nothing to read. -/
  | empty
  /-- A character stands where a digit has to, or there is a sign and no digit. -/
  | invalidDigit
  /-- The value exceeds the largest number. -/
  | tooLarge
  /-- The value is below the least number. -/
  | tooSmall
  deriving DecidableEq, Repr

/-- The fault in words. -/
def Fault.message : Fault → String
  | .empty => "cannot parse integer from empty string"
  | .invalidDigit => "invalid digit found in string"
  | .tooLarge => "number too large to fit in target type"
  | .tooSmall => "number too small to fit in target type"

/-- Continues the value `n` with digits, as long as it stays within `limit`. -/
def accumulate (base limit : Nat) (beyond : Fault) : Nat → List Char → Except Fault Nat
  | n, [] => .ok n
  | n, c :: cs =>
    match digit? base c with
    | none => .error .invalidDigit
    | some d =>
      if limit < n * base + d then .error beyond
      else accumulate base limit beyond (n * base + d) cs

/-- Reads digits that no sign precedes, up to the largest number. -/
def readMagnitude (base : Nat) (cs : List Char) : Except Fault Int64 :=
  if cs.isEmpty then .error .invalidDigit
  else (accumulate base Int64.maxValue.toInt.toNat .tooLarge 0 cs).map fun n => Int64.ofInt n

/-- Reads an optional sign and digits of the given base. -/
def readSigned (base : Nat) : List Char → Except Fault Int64
  | [] => .error .empty
  | '-' :: cs =>
    if cs.isEmpty then .error .invalidDigit
    else (accumulate base Int64.minValue.toInt.natAbs .tooSmall 0 cs).map fun n => Int64.ofInt (-n)
  | '+' :: cs => readMagnitude base cs
  | cs => readMagnitude base cs

/-- The digit for a value below ten. -/
def decimalDigit (d : Nat) : Char := Char.ofNat ('0'.toNat + d)

/-- The decimal digits of `n`, without superfluous zeros in front. -/
def decimal (n : Nat) : List Char :=
  if n < 10 then [decimalDigit n] else decimal (n / 10) ++ [decimalDigit (n % 10)]

/-- The decimal text of a number, with a minus sign if it is negative. -/
def render (n : Int64) : String :=
  if n < 0 then String.ofList ('-' :: decimal n.toInt.natAbs)
  else String.ofList (decimal n.toInt.natAbs)

end GlyphRebase.Number
