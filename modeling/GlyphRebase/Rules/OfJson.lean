import GlyphRebase.Json.Text
import GlyphRebase.Rules
import GlyphRebase.Text.Quoted

/-!
# Rules from JSON

Rules come as an object, whose members carry the names of the settings, or as an array, which lists
the settings in their order. The policy may be left out of both. An object may have further
members; an array may not have further elements. `Rules.ofJson` names the first thing that does not
fit: of an object, in the order of the members' names, and after that whatever is missing.
-/

namespace GlyphRebase

/-- How a JSON value fails to be what is asked for. -/
inductive Misfit where
  /-- It is of another kind. -/
  | kind (found : Json) (expected : String)
  /-- It is of the right kind and has no such value. -/
  | value (found : Json) (expected : String)
  /-- A member is missing. -/
  | missing (name : String)
  /-- There is no policy of this name. -/
  | unknownPolicy (name : String)
  /-- The array ends too early. -/
  | tooShort (length : Nat)
  /-- The array has further elements. -/
  | tooLong (length : Nat)

/-- What the value is, in words. -/
def Json.describe : Json → String
  | .null => "null"
  | .boolean b => "boolean `" ++ (if b then "true" else "false") ++ "`"
  | .integer n => "integer `" ++ toString n ++ "`"
  | .float x => "floating point `" ++ Json.layout.write x ++ "`"
  | .text s => "string " ++ Text.quote s
  | .list _ => "sequence"
  | .object _ => "map"

/-- The misfit in words. -/
def Misfit.message : Misfit → String
  | .kind found expected => "invalid type: " ++ found.describe ++ ", expected " ++ expected
  | .value found expected => "invalid value: " ++ found.describe ++ ", expected " ++ expected
  | .missing name => "missing field `" ++ name ++ "`"
  | .unknownPolicy name =>
    "unknown variant `" ++ name ++ "`, expected `allow` or `reject`"
  | .tooShort n => "invalid length " ++ toString n ++ ", expected struct RemapRules with 4 elements"
  | .tooLong n => "invalid length " ++ toString n ++ ", expected fewer elements in array"

/-- The policy of the given name. -/
def NegativePolicy.named (name : String) : Except Misfit NegativePolicy :=
  if name = "allow" then .ok .allow
  else if name = "reject" then .ok .reject
  else .error (.unknownPolicy name)

/-- A policy is its name, or an object with that name as its only member and no value for it. -/
def NegativePolicy.ofJson : Json → Except Misfit NegativePolicy
  | .text name => named name
  | .object [(name, value)] => do
    let policy ← named name
    match value with
    | .null => return policy
    | value => throw (.kind value "unit")
  | .object members => .error (.value (.object members) "map with a single key")
  | j => .error (.kind j "string or map")

/-- A whole number of 64 bits. -/
def Json.toInt64 : Json → Except Misfit Int64
  | .integer n =>
    if Int64.minValue.toInt ≤ n ∧ n ≤ Int64.maxValue.toInt then .ok (Int64.ofInt n)
    else .error (.value (.integer n) "i64")
  | j => .error (.kind j "i64")

namespace Rules

/-- The value of a member that has to be there. -/
def required {α : Type} (name : String) : Option α → Except Misfit α
  | some a => .ok a
  | none => .error (.missing name)

/-- The rules that the members of an object give. -/
def ofMembers (j : Json) : Except Misfit Rules := do
  let negative ← (j.member? "negative_index").mapM NegativePolicy.ofJson
  let offset ← (j.member? "offset").mapM Json.toInt64
  let special ← (j.member? "special_index").mapM Json.toInt64
  let boundary ← (j.member? "wrap_boundary").mapM Json.toInt64
  let special ← required "special_index" special
  let offset ← required "offset" offset
  let boundary ← required "wrap_boundary" boundary
  return ⟨special, offset, boundary, negative.getD .allow⟩

/-- The rules that the elements of an array give: the special index, the offset, the boundary and
perhaps the policy. -/
def ofElements (items : List Json) : Except Misfit Rules := do
  let number (i : Nat) : Except Misfit Int64 :=
    match items[i]? with
    | some j => j.toInt64
    | none => throw (.tooShort i)
  let special ← number 0
  let offset ← number 1
  let boundary ← number 2
  let negative ← items[3]?.mapM NegativePolicy.ofJson
  if 4 < items.length then throw (.tooLong items.length)
  return ⟨special, offset, boundary, negative.getD .allow⟩

/-- The rules that a JSON value gives, or the first thing in it that does not fit. -/
def ofJson : Json → Except Misfit Rules
  | .object members => ofMembers (.object members)
  | .list items => ofElements items
  | j => .error (.kind j "struct RemapRules")

end Rules

end GlyphRebase
