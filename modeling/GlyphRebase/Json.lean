import GlyphRebase.Number.Binary64

/-!
# JSON values

The values of JSON. A number is an integer if it is written as one and fits into 64 bits, signed or
unsigned; every other number is a double. An object lists its members in the order of the text, a
name that is repeated once, with its last value.
-/

namespace GlyphRebase

/-- A JSON value. -/
inductive Json where
  | null
  | boolean (b : Bool)
  | integer (n : Int)
  | float (x : Binary64)
  | text (s : String)
  | list (items : List Json)
  | object (members : List (String × Json))

/-- The value of a member, if the value is an object that has it. -/
def Json.member? (j : Json) (name : String) : Option Json :=
  match j with
  | .object members => (members.find? (·.1 == name)).map (·.2)
  | _ => none

end GlyphRebase
