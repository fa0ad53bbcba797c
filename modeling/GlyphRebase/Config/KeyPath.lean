import GlyphRebase.Config.Value

/-!
# Key paths

A path names a setting: a key, and then the keys of settings below it, each after a point, and
positions in lists, each in brackets: `remap.offset`, `remap[1]`. `KeyPath.assign` gives the setting
a value. On its way it makes tables and lists, in the place of whatever is neither.
-/

namespace GlyphRebase.Config

/-- One step of a path. -/
inductive KeyStep where
  /-- To the setting of a key. -/
  | key (name : String)
  /-- To an element of a list. -/
  | index (i : Int)
  deriving DecidableEq, Repr

/-- A path to a setting. -/
structure KeyPath where
  first : String
  rest : List KeyStep
  deriving DecidableEq, Repr

namespace KeyPath

/-! ### Reading -/

/-- May `c` stand in a key of a path? -/
def isKeyChar (c : Char) : Bool := c.isAlphanum || c == ' ' || c == '_' || c == '-'

/-- Is `c` a space or a tab? -/
def isGap (c : Char) : Bool := c == ' ' || c == '\t'

/-- A key at the front of a text, and the rest of the text. -/
def scanKey (cs : List Char) : Option (String × List Char) :=
  let key := cs.takeWhile isKeyChar
  if key.isEmpty then none else some (String.ofList key, cs.dropWhile isKeyChar)

/-- A position of 64 bits and its closing bracket at the front of a text, and the rest. -/
def scanIndex (cs : List Char) : Option (Int × List Char) :=
  let cs := cs.dropWhile isGap
  let (sign, cs) := match cs with
    | '-' :: cs => (['-'], cs)
    | cs => ([], cs)
  let digits := cs.takeWhile Number.isDecimal
  match Number.readSigned 10 (sign ++ digits), (cs.dropWhile Number.isDecimal).dropWhile isGap with
  | .ok i, ']' :: cs => some (i.toInt, cs)
  | _, _ => none

/-- The steps that a text consists of, no more than `n`. -/
def scanSteps : Nat → List Char → Option (List KeyStep)
  | _, [] => some []
  | n + 1, '.' :: cs => do
    let (key, cs) ← scanKey cs
    return .key key :: (← scanSteps n cs)
  | n + 1, '[' :: cs => do
    let (i, cs) ← scanIndex cs
    return .index i :: (← scanSteps n cs)
  | _, _ => none

/-- The path that a text names. Every step takes at least one character. -/
def parse (text : String) : Option KeyPath := do
  let (first, cs) ← scanKey text.toList
  return ⟨first, ← scanSteps cs.length cs⟩

/-! ### Assigning -/

/-- Gives a value to the setting that steps lead to. -/
def assignFrom (new : Value) : KeyStep → List KeyStep → Value → Value
  | .key name, [], v => v.set name new
  | .index i, [], v => v.changeElement i fun _ => new
  | .key name, s :: rest, v =>
    v.changeMember name fun old => assignFrom new s rest (old.getD .blank)
  | .index i, s :: rest, v => v.changeElement i (assignFrom new s rest)

/-- Gives a value to the setting at the end of the path. -/
def assign (p : KeyPath) (new : Value) (v : Value) : Value := assignFrom new (.key p.first) p.rest v

end KeyPath

end GlyphRebase.Config
