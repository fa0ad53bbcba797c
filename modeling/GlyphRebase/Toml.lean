import GlyphRebase.Number.Binary64
import GlyphRebase.Toml.Date

/-!
# TOML values

The values that a TOML document is made of.
-/

namespace GlyphRebase

/-- A TOML value. -/
inductive Toml where
  | text (s : String)
  | integer (n : Int64)
  | float (x : Binary64)
  | boolean (b : Bool)
  | moment (m : Toml.Moment)
  | array (items : List Toml)
  | table (members : List (String × Toml))

end GlyphRebase
