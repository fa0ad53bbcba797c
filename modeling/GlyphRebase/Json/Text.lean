import GlyphRebase.Json
import GlyphRebase.Number.Shortest
import GlyphRebase.Text.Quoted

/-!
# JSON texts

A value is written without blanks. In a string only what JSON demands is escaped: the quotation
mark, the backslash and the control characters, seven of which have a short form.
-/

namespace GlyphRebase.Json

/-- Doubles are written plainly from a hundred-thousandth up to below `1e16`. -/
def layout : DecimalLayout where
  plain e := -5 ≤ e && e < 16
  pointZero := true
  tie := .even

/-- The form of a character in a string. -/
def escape (c : Char) : List Char :=
  if c = '"' then ['\\', '"']
  else if c = '\\' then ['\\', '\\']
  else if c = '\x08' then ['\\', 'b']
  else if c = '\t' then ['\\', 't']
  else if c = '\n' then ['\\', 'n']
  else if c = '\x0c' then ['\\', 'f']
  else if c = '\r' then ['\\', 'r']
  else if c.toNat < 0x10 then ['\\', 'u', '0', '0', '0', Text.hexDigit c.toNat]
  else if c.toNat < 0x20 then ['\\', 'u', '0', '0', '1', Text.hexDigit (c.toNat - 0x10)]
  else [c]

/-- A string between quotation marks. -/
def quote (s : String) : String := String.ofList ('"' :: s.toList.flatMap escape ++ ['"'])

mutual

/-- The text of a value. A double that is no number, or not finite, has none and is written as
`null`. -/
def render : Json → String
  | null => "null"
  | boolean b => if b then "true" else "false"
  | integer n => toString n
  | float x =>
    match x with
    | .finite .. => layout.write x
    | .nan | .infinite _ => "null"
  | text s => quote s
  | list items => "[" ++ ",".intercalate (renderItems items) ++ "]"
  | object members => "\x7b" ++ ",".intercalate (renderMembers members) ++ "\x7d"

/-- The texts of the elements of an array. -/
def renderItems : List Json → List String
  | [] => []
  | j :: js => render j :: renderItems js

/-- The texts of the members of an object. -/
def renderMembers : List (String × Json) → List String
  | [] => []
  | (name, j) :: ms => (quote name ++ ":" ++ render j) :: renderMembers ms

end

end GlyphRebase.Json
