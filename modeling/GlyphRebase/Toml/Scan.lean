/-!
# Scanning

A scanner takes something from the front of a text, or refuses. A choice of scanners tries each at
the same place. `Scan.many` repeats a scanner as long as it accepts; a text of `n` characters is
never scanned more than `n` times, so the repetition ends whatever the scanner does.
-/

namespace GlyphRebase.Toml

/-- Takes something from the front of a text, or refuses. -/
abbrev Scan := StateT (List Char) Option

namespace Scan

/-- What the scanner takes from a whole text. -/
def all {α : Type} (p : Scan α) (text : List Char) : Option α :=
  match p text with
  | some (a, []) => some a
  | _ => none

/-- The next character, if it is as asked for. -/
def char (accepts : Char → Bool) : Scan Char
  | c :: cs => if accepts c then some (c, cs) else none
  | [] => none

/-- The next characters, if they are this word. -/
def word (w : List Char) : Scan Unit := fun cs =>
  if w.isPrefixOf cs then some ((), cs.drop w.length) else none

/-- The longest run of characters that are as asked for. -/
def run (accepts : Char → Bool) : Scan (List Char) := fun cs =>
  some (cs.takeWhile accepts, cs.dropWhile accepts)

/-- The longest run of such characters, if there is one at all. -/
def run1 (accepts : Char → Bool) : Scan (List Char) := do
  let taken ← run accepts
  if taken.isEmpty then failure else return taken

/-- The next character, which stays. -/
def peek : Scan (Option Char) := fun cs => some (cs.head?, cs)

/-- Does the scanner accept here? Nothing is taken. -/
def follows {α : Type} (p : Scan α) : Scan Bool := fun cs => some ((p cs).isSome, cs)

/-- What the scanner takes, if it accepts. -/
def maybe {α : Type} (p : Scan α) : Scan (Option α) := fun cs =>
  match p cs with
  | some (a, rest) => some (some a, rest)
  | none => some (none, cs)

/-- Repeats a scanner, so many times at most. -/
def upTo {α : Type} (p : Scan α) : Nat → Scan (List α)
  | 0 => return []
  | n + 1 => do
    match ← maybe p with
    | some a => return a :: (← upTo p n)
    | none => return []

/-- Repeats a scanner as long as it accepts. -/
def many {α : Type} (p : Scan α) : Scan (List α) := fun cs => upTo p cs.length cs

/-- One or more, with separators between them. -/
def separated {α : Type} (p : Scan α) (separator : Scan Unit) : Scan (List α) := do
  let first ← p
  return first :: (← many (do separator; p))

/-- The end of the text. -/
def atEnd : Scan Unit
  | [] => some ((), [])
  | _ => none

/-! ### Blanks, line ends and comments -/

/-- Is `c` a space or a tab? -/
def isGap (c : Char) : Bool := c == ' ' || c == '\t'

/-- Spaces and tabs. -/
def gap : Scan Unit := do
  let _ ← run isGap

/-- A line feed, alone or after a carriage return. -/
def lineEnd : Scan Unit := word ['\n'] <|> word ['\r', '\n']

/-- Is `c` visible, or not in ASCII? -/
def isGraphic (c : Char) : Bool := '!' ≤ c && c ≠ '\x7f'

/-- May `c` stand in a comment? -/
def isComment (c : Char) : Bool := isGap c || isGraphic c

/-- A comment, up to the end of its line. -/
def comment : Scan Unit := do
  word ['#']
  let _ ← run isComment

/-- What may follow a statement in its line. -/
def lineRest : Scan Unit := do
  gap
  let _ ← maybe comment
  lineEnd <|> atEnd

/-- Blanks, line ends and comments between the elements of an array. -/
def between : Scan Unit := do
  let _ ← many ((do let _ ← run1 isGap) <|> lineEnd <|> comment)

/-! ### Digits -/

/-- Is `c` a decimal digit? -/
def isDigit (c : Char) : Bool := '0' ≤ c && c ≤ '9'

/-- A digit, with or without an underscore before it. -/
def digitInside (accepts : Char → Bool) : Scan Char :=
  char accepts <|> (do word ['_']; char accepts)

/-- Digits, with single underscores between them, which are left out. -/
def digits (accepts : Char → Bool) : Scan (List Char) := do
  let first ← char accepts
  return first :: (← many (digitInside accepts))

/-- The value of `n` digits, all of which have to be there. -/
def fixed : Nat → Nat → Scan Nat
  | 0, value => return value
  | n + 1, value => do
    let c ← char isDigit
    fixed n (value * 10 + (c.toNat - '0'.toNat))

/-- A number of `n` digits within bounds. -/
def number (n low high : Nat) : Scan Nat := do
  let value ← fixed n 0
  if low ≤ value ∧ value ≤ high then return value else failure

end Scan

end GlyphRebase.Toml
