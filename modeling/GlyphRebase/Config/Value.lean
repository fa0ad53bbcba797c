import GlyphRebase.Number.Integer
import GlyphRebase.Number.Shortest
import GlyphRebase.Text.Lowercase
import GlyphRebase.Text.Quoted
import GlyphRebase.Toml

/-!
# Configuration values

A configuration is a table of settings, put together from layers. `Value.set` lays a value over
what a key stood for before: two tables are merged key by key, and anything else replaces what was
there, but for an empty table, which changes nothing. Keys do not depend on case; they are kept in
lower case.

A value knows the file that it came from. Tables that were merged came from no file.
-/

namespace GlyphRebase.Config

/-- A value that has no parts. -/
inductive Scalar where
  | boolean (b : Bool)
  | integer (n : Int64)
  | float (x : Binary64)
  | text (s : String)
  deriving DecidableEq, Repr

namespace Scalar

/-- Doubles in texts have no exponent, and no fraction if they are whole. -/
def layout : DecimalLayout where
  plain _ := true
  pointZero := false
  tie := .up

/-- Doubles in messages have no exponent, and always a fraction. -/
def messageLayout : DecimalLayout := { layout with pointZero := true }

/-- The text of a value. -/
def render : Scalar → String
  | .boolean b => if b then "true" else "false"
  | .integer n => Number.render n
  | .float x => layout.write x
  | .text s => s

/-- The value in words. -/
def describe : Scalar → String
  | .boolean b => "boolean `" ++ (if b then "true" else "false") ++ "`"
  | .integer n => "integer `" ++ Number.render n ++ "`"
  | .float x => "floating point `" ++ messageLayout.write x ++ "`"
  | .text s => "string " ++ Text.quote s

end Scalar

/-- A value in a configuration, with the file that it came from. -/
inductive Value where
  /-- No value: what a list is filled up with. -/
  | blank
  | scalar (s : Scalar) (origin : Option String)
  | list (items : List Value) (origin : Option String)
  | table (members : List (String × Value)) (origin : Option String)

/-- The settings of a table by their keys. -/
abbrev Members := List (String × Value)

/-- The value of a key. -/
def Members.get? (ms : Members) (key : String) : Option Value :=
  (List.find? (·.1 == key) ms).map (·.2)

/-- The settings with another value of a key, which may be new. -/
def Members.put (ms : Members) (key : String) (v : Value) : Members :=
  if ms.any (·.1 == key) then ms.map fun m => if m.1 = key then (key, v) else m
  else ms ++ [(key, v)]

namespace Value

/-- A table without settings. -/
def empty : Value := .table [] none

/-- The settings of a table. What is no table gives way to an empty one. -/
def asTable : Value → Members × Option String
  | .table ms origin => (ms, origin)
  | _ => ([], none)

/-- The elements of a list. What is no list gives way to an empty one. -/
def asList : Value → List Value × Option String
  | .list items origin => (items, origin)
  | _ => ([], none)

/-- Changes the value of a key, and makes a table for it if need be. -/
def changeMember (key : String) (f : Option Value → Value) (v : Value) : Value :=
  let (ms, origin) := v.asTable
  let key := Text.lowercase key
  .table (ms.put key (f (ms.get? key))) origin

/-- The position that an index means in a list. A negative index counts from the end. -/
def position (index : Int) (length : Nat) : Nat :=
  if 0 ≤ index then index.toNat else length - index.natAbs

/-- Changes an element of a list, and makes the list as long as need be. -/
def changeElement (index : Int) (f : Value → Value) (v : Value) : Value :=
  let (items, origin) := v.asList
  let n := position index items.length
  let items := items ++ List.replicate (n + 1 - items.length) .blank
  .list (items.modify n f) origin

mutual

/-- Lays a value over what a key stood for. -/
def set (v : Value) (key : String) : Value → Value
  | .table ms _ => v.changeMember key fun old => merge (old.getD empty) ms
  | .blank => v.changeMember key fun _ => .blank
  | .scalar s origin => v.changeMember key fun _ => .scalar s origin
  | .list items origin => v.changeMember key fun _ => .list items origin

/-- Lays settings one by one over a value. -/
def merge (v : Value) : Members → Value
  | [] => v
  | (key, new) :: ms => merge (set v key new) ms

end

/-! ### Values from files -/

mutual

/-- The value that a TOML value of a file gives. A moment gives its text. -/
def ofToml (origin : Option String) : Toml → Value
  | .text s => .scalar (.text s) origin
  | .integer n => .scalar (.integer n) origin
  | .float x => .scalar (.float x) origin
  | .boolean b => .scalar (.boolean b) origin
  | .moment m => .scalar (.text m.render) origin
  | .array items => .list (ofItems origin items) origin
  | .table ms => .table (ofMembers origin ms) origin

/-- The values that the elements of an array give. -/
def ofItems (origin : Option String) : List Toml → List Value
  | [] => []
  | t :: ts => ofToml origin t :: ofItems origin ts

/-- The settings that the members of a table give. -/
def ofMembers (origin : Option String) : List (String × Toml) → Members
  | [] => []
  | (key, t) :: ms => (key, ofToml origin t) :: ofMembers origin ms

end

/-! ### What values are -/

/-- The file that a value came from. -/
def origin? : Value → Option String
  | .blank => none
  | .scalar _ origin | .list _ origin | .table _ origin => origin

/-- The value in words. -/
def describe : Value → String
  | .blank => "unit value"
  | .scalar s _ => s.describe
  | .list .. => "sequence"
  | .table .. => "map"

end Value

end GlyphRebase.Config
