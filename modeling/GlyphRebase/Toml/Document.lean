import GlyphRebase.Toml.Numeral
import GlyphRebase.Toml.Section
import GlyphRebase.Toml.Text

/-!
# Documents

A document is a sequence of statements, each at the end of a line: a pair of a key and a value, the
header of a table, or the header of a table in an array. `Toml.parse` reads the statements and puts
their tables together; it tells a document from other texts, and not what is wrong with those.

Arrays and inline tables stand in each other at most 79 deep.
-/

namespace GlyphRebase.Toml

open Scan

/-- A pair, as it stands: the keys on the way, the last key and the value. -/
structure Pair where
  path : List String
  key : String
  value : Toml

/-- The pair of a dotted key, if the key has a part. -/
def Pair.of? (parts : List String) (value : Toml) : Option Pair :=
  parts.getLast?.map fun key => ⟨parts.dropLast, key, value⟩

/-- The members that pairs make. -/
def assembled (pairs : List Pair) : Option Sections :=
  pairs.foldlM (fun ms p => ms.assign p.key p.value p.path) []

/-- A pair whose value the given scanner takes. -/
def pairOf (value : Scan Toml) : Scan Pair := do
  let parts ← dottedKey
  word ['=']
  gap
  let v ← value
  StateT.lift (Pair.of? parts v)

/-- An array whose elements the given scanner takes. -/
def arrayOf (value : Scan Toml) : Scan Toml := do
  word ['[']
  let items ← maybe <| separated (do between; let v ← value; between; return v) (word [','])
  if items.isSome then
    let _ ← maybe (word [','])
  between
  word [']']
  return .array (items.getD [])

/-- A table in braces whose values the given scanner takes. -/
def inlineTable (value : Scan Toml) : Scan Toml := do
  word ['\x7b']
  let pairs ← maybe <| separated (do let p ← pairOf value; gap; return p) (word [','])
  gap
  word ['\x7d']
  return .table (Sections.toMembers (← StateT.lift (assembled (pairs.getD []))))

/-- A value in which no other stands. -/
def scalar : Scan Toml :=
  (do return .text (← string)) <|>
  (do return .moment (← Moment.scan)) <|>
  (do return .float (← double)) <|>
  (do return .integer (← wholeNumber)) <|>
  (do word ['t', 'r', 'u', 'e']; return .boolean true) <|>
  (do word ['f', 'a', 'l', 's', 'e']; return .boolean false)

/-- A value in which others stand so deep at most. -/
def value : Nat → Scan Toml
  | 0 => scalar
  | depth + 1 => scalar <|> arrayOf (value depth) <|> inlineTable (value depth)

/-- How deep values stand in each other at most. -/
def mostNested : Nat := 79

/-- A statement. -/
inductive Statement where
  /-- A key and its value. -/
  | pair (p : Pair)
  /-- The header of a table. -/
  | header (path : List String)
  /-- The header of a table in an array. -/
  | itemHeader (path : List String)

/-- A statement, with the blanks after its line. -/
def statement : Scan (Option Statement) := do
  let s ←
    (do lineEnd
        return none) <|>
    (do comment
        lineEnd <|> atEnd
        return none) <|>
    (do word ['[', '[']
        let path ← dottedKey
        word [']', ']']
        lineRest
        return some (.itemHeader path)) <|>
    (do word ['[']
        let path ← dottedKey
        word [']']
        lineRest
        return some (.header path)) <|>
    (do let p ← pairOf (value mostNested)
        lineRest
        return some (.pair p))
  gap
  return s

/-- The statements of a document. -/
def document : Scan (List Statement) := do
  let _ ← maybe (word ['\ufeff'])
  gap
  return (← many statement).filterMap id

/-- A document under construction: its members, and the keys of the table that pairs now go to. -/
structure Draft where
  members : Sections
  current : List String

/-- The document with one more statement. -/
def Draft.add (d : Draft) : Statement → Option Draft
  | .pair p => do
    return { d with members := ← d.members.through (·.assign p.key p.value p.path) d.current }
  | .header path => do
    let key ← path.getLast?
    return ⟨← d.members.through (·.openTable key) path.dropLast, path⟩
  | .itemHeader path => do
    let key ← path.getLast?
    return ⟨← d.members.through (·.openItem key) path.dropLast, path⟩

/-- The members of the table that a text is a document of. -/
def parse (text : String) : Option (List (String × Toml)) := do
  let statements ← document.all text.toList
  let d ← statements.foldlM Draft.add ⟨[], []⟩
  return Sections.toMembers d.members

end GlyphRebase.Toml
