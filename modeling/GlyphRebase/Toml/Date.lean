import GlyphRebase.Number.Integer
import GlyphRebase.Toml.Scan

/-!
# Dates and times

A moment is a date, a time of day, or both, and a date with a time may tell its distance from
universal time. Seconds go up to 60, and of their fraction nine digits count.

`Moment.render` writes a moment in one form: `T` before the time, no fraction that is zero and no
zeros at its end, and `Z` only for what was written so.
-/

namespace GlyphRebase.Toml

open Scan

/-- A day. -/
structure Day where
  year : Nat
  month : Nat
  day : Nat
  deriving DecidableEq, Repr

/-- A time of day. -/
structure Clock where
  hour : Nat
  minute : Nat
  second : Nat
  nanosecond : Nat
  deriving DecidableEq, Repr

/-- The distance from universal time. -/
inductive Zone where
  /-- Universal time. -/
  | universal
  /-- So many minutes ahead of it. -/
  | ahead (minutes : Int)
  deriving DecidableEq, Repr

/-- A date, a time, or both. -/
inductive Moment where
  | day (d : Day)
  | clock (c : Clock)
  | both (d : Day) (c : Clock) (zone : Option Zone)
  deriving DecidableEq, Repr

/-- How many days a month has. -/
def daysIn (year month : Nat) : Nat :=
  if month = 2 then
    if year % 4 = 0 ∧ (year % 100 ≠ 0 ∨ year % 400 = 0) then 29 else 28
  else if month = 4 ∨ month = 6 ∨ month = 9 ∨ month = 11 then 30
  else 31

/-! ### Writing -/

/-- A number in `n` digits or more, with zeros in front. -/
def padded (n value : Nat) : List Char :=
  let ds := Number.decimal value
  List.replicate (n - ds.length) '0' ++ ds

/-- The text without the zeros it ends in. -/
def withoutZeros (cs : List Char) : List Char := (cs.reverse.dropWhile (· == '0')).reverse

/-- The text of a day. -/
def Day.render (d : Day) : List Char :=
  padded 4 d.year ++ '-' :: padded 2 d.month ++ '-' :: padded 2 d.day

/-- The text of a time. -/
def Clock.render (c : Clock) : List Char :=
  padded 2 c.hour ++ ':' :: padded 2 c.minute ++ ':' :: padded 2 c.second ++
    if c.nanosecond = 0 then [] else '.' :: withoutZeros (padded 9 c.nanosecond)

/-- The text of a distance from universal time. -/
def Zone.render : Zone → List Char
  | .universal => ['Z']
  | .ahead minutes =>
    (if minutes < 0 then '-' else '+') :: padded 2 (minutes.natAbs / 60) ++
      ':' :: padded 2 (minutes.natAbs % 60)

/-- The text of a moment. -/
def Moment.render : Moment → String
  | .day d => String.ofList d.render
  | .clock c => String.ofList c.render
  | .both d c zone =>
    String.ofList (d.render ++ 'T' :: c.render ++ (zone.map Zone.render).getD [])

/-! ### Reading -/

/-- The nanoseconds in the digits of a fraction of a second. -/
def nanoseconds (ds : List Char) : Nat :=
  (ds.take 9 ++ List.replicate (9 - ds.length) '0').foldl
    (fun n c => n * 10 + (c.toNat - '0'.toNat)) 0

/-- A day. -/
def Day.scan : Scan Day := do
  let year ← number 4 0 9999
  word ['-']
  let month ← number 2 1 12
  word ['-']
  let day ← number 2 1 (daysIn year month)
  return ⟨year, month, day⟩

/-- A time of day. -/
def Clock.scan : Scan Clock := do
  let hour ← number 2 0 23
  word [':']
  let minute ← number 2 0 59
  word [':']
  let second ← number 2 0 60
  let fraction ← maybe (do word ['.']; run1 isDigit)
  return ⟨hour, minute, second, nanoseconds (fraction.getD [])⟩

/-- A distance from universal time. -/
def Zone.scan : Scan Zone :=
  (do let _ ← char fun c => c == 'Z' || c == 'z'
      return .universal) <|>
  (do let sign ← char fun c => c == '+' || c == '-'
      let hours ← number 2 0 23
      word [':']
      let minutes ← number 2 0 59
      let total : Int := hours * 60 + minutes
      return .ahead (if sign = '-' then -total else total))

/-- The time that follows a day. -/
def clockAfterDay : Scan (Clock × Option Zone) := do
  let _ ← char fun c => c == 'T' || c == 't' || c == ' '
  let c ← Clock.scan
  return (c, ← maybe Zone.scan)

/-- A moment. -/
def Moment.scan : Scan Moment :=
  (do let d ← Day.scan
      match ← maybe clockAfterDay with
      | some (c, zone) => return .both d c zone
      | none => return .day d) <|>
  (do return .clock (← Clock.scan))

end GlyphRebase.Toml
