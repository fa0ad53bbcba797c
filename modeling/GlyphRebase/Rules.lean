import GlyphRebase.Number.Integer

/-!
# Rules of rebasing

The constants by which a table is moved into the code space: an offset that is subtracted from
every index but the special one, and a boundary at which an index wraps. The rules may be any
numbers; `Rules.fault?` says which of them no pass accepts.
-/

namespace GlyphRebase

/-- What becomes of an entry whose moved index is negative. -/
inductive NegativePolicy where
  /-- It is written with its sign. -/
  | allow
  /-- It ends the pass. -/
  | reject
  deriving DecidableEq, Repr

/-- The word for a policy. -/
def NegativePolicy.name : NegativePolicy → String
  | .allow => "allow"
  | .reject => "reject"

/-- The constants of the rebasing. -/
structure Rules where
  /-- The index that stays where it is and never wraps. -/
  special : Int64
  /-- Subtracted from every other index. -/
  offset : Int64
  /-- An index at or above it wraps, by as much. -/
  boundary : Int64
  /-- What becomes of negative indices. -/
  negative : NegativePolicy
  deriving DecidableEq, Repr

namespace Rules

/-- The rules of a table whose indices start at `0xBFB0` and whose placeholder is entry 512. -/
def standard : Rules := ⟨512, 0xBFB0, 0x10000, .allow⟩

/-- What is wrong with the rules, in words: only a positive boundary can be wrapped at. -/
def fault? (r : Rules) : Option String :=
  if r.boundary ≤ 0 then
    some ("wrap boundary must be positive, got " ++ Number.render r.boundary)
  else none

end Rules

end GlyphRebase
