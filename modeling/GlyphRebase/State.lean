import GlyphRebase.Entry
import GlyphRebase.Rules

/-!
# The state of a pass

A pass carries from line to line the entry that it last wrote, and the code of the first entry
whose index overflowed. `State.advance` is one step. A line that holds no entry changes nothing, so
the entry before it is written once more; so does an entry whose moved index does not fit into 64
bits. An index at or above the boundary wraps once. The special index is neither moved nor wrapped.
-/

namespace GlyphRebase

/-- What a pass carries from one line to the next. -/
structure State where
  /-- The index last written. -/
  index : Int64
  /-- The glyph code last written. -/
  code : String
  /-- Has an index overflowed so far? -/
  overflowed : Bool
  /-- The code of the first entry that overflowed. -/
  overflowCode : String
  deriving DecidableEq, Repr

/-- What a line did to the state. -/
inductive Outcome where
  /-- It held an entry, which was moved and is now the current one. -/
  | remapped
  /-- It left the state as it was. -/
  | passedOver
  deriving DecidableEq, Repr

/-- The difference of two numbers, if it fits into 64 bits. -/
def shift? (index offset : Int64) : Option Int64 :=
  let d := index.toInt - offset.toInt
  if Int64.minValue.toInt ≤ d ∧ d ≤ Int64.maxValue.toInt then some (Int64.ofInt d) else none

namespace State

/-- The state before the first line. -/
def initial : State := ⟨0, "0x0000", false, "0x0000"⟩

/-- The entry that the state stands for. -/
def entry (s : State) : Entry := ⟨s.index, s.code⟩

/-- The code of the first overflow, if there was one. -/
def firstOverflow? (s : State) : Option String :=
  if s.overflowed then some s.overflowCode else none

/-- Makes an entry the current one whose index is final. -/
def record (s : State) (index : Int64) (code : String) : State :=
  { s with index := index, code := code }

/-- Wraps an index at the boundary, and remembers the code if it is the first to overflow. -/
def wrap (s : State) (index : Int64) (code : String) (r : Rules) : State :=
  { index := index - r.boundary
    code := code
    overflowed := true
    overflowCode := if s.overflowed then s.overflowCode else code }

/-- The state after an entry; `none` if its index cannot be moved. -/
def take? (s : State) (e : Entry) (r : Rules) : Option State :=
  if e.index = r.special then some (s.record e.index e.code)
  else (shift? e.index r.offset).map fun index =>
    if r.boundary ≤ index then s.wrap index e.code r else s.record index e.code

/-- The state after a line, and what the line did. -/
def advance (s : State) (line : String) (r : Rules) : State × Outcome :=
  match (Entry.ofLine? line).bind (s.take? · r) with
  | some next => (next, .remapped)
  | none => (s, .passedOver)

end State

end GlyphRebase
