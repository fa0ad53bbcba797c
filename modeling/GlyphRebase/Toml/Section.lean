import GlyphRebase.Toml

/-!
# Sections

A document gives its tables in pieces: by headers, by dotted keys, or only by being on the way to
another table. Which pieces may come together depends on how a table came about, so sections, the
tables under construction, keep a mark of that.

* A header may name a table that so far was only on the way to another one, but none that a header
  or a dotted key has made.
* A dotted key goes through tables that no header has made, and ends in one that dotted keys made.
* A header in double brackets adds a table to an array of tables, and what goes through such an
  array goes through its last table.
-/

namespace GlyphRebase.Toml

/-- How a table came about. -/
inductive Mark where
  /-- A header, or braces, made it. -/
  | explicit
  /-- It lies on the way to the table of a header. -/
  | implied
  /-- It lies on the way of a dotted key. -/
  | dotted
  deriving DecidableEq, Repr

/-- What a key stands for while its table is under construction. -/
inductive Section where
  /-- A value that is complete. -/
  | value (v : Toml)
  /-- A table. -/
  | table (mark : Mark) (members : List (String × Section))
  /-- An array of tables, in which the last is under construction. -/
  | tables (items : List (List (String × Section)))

/-- The members of a table under construction. -/
abbrev Sections := List (String × Section)

namespace Sections

/-- What a key stands for. -/
def lookup? (ms : Sections) (key : String) : Option Section := (ms.find? (·.1 == key)).map (·.2)

/-- The members with another meaning of a key, which may be new. -/
def put (ms : Sections) (key : String) (s : Section) : Sections :=
  if ms.any (·.1 == key) then ms.map fun m => if m.1 = key then (key, s) else m
  else ms ++ [(key, s)]

/-- Changes the last of several tables. -/
def changeLast (f : Sections → Option Sections) (tables : List Sections) :
    Option (List Sections) := do
  let last ← tables.getLast?
  return tables.dropLast ++ [← f last]

/-- Gives a dotted key its value. -/
def assign (key : String) (v : Toml) : List String → Sections → Option Sections
  | [], ms => if (ms.lookup? key).isSome then none else some (ms.put key (.value v))
  | k :: path, ms =>
    match ms.lookup? k with
    | none => do return ms.put k (.table .dotted (← assign key v path []))
    | some (.table mark inner) =>
      if mark = .explicit ∨ path.isEmpty ∧ mark ≠ .dotted then none
      else do return ms.put k (.table mark (← assign key v path inner))
    | some (.tables items) =>
      if path.isEmpty then none
      else do return ms.put k (.tables (← changeLast (assign key v path) items))
    | some (.value _) => none

/-- Changes the table that a header leads to through others. -/
def through (f : Sections → Option Sections) : List String → Sections → Option Sections
  | [], ms => f ms
  | k :: path, ms =>
    match ms.lookup? k with
    | none => do return ms.put k (.table .implied (← through f path []))
    | some (.table mark inner) => do return ms.put k (.table mark (← through f path inner))
    | some (.tables items) => do return ms.put k (.tables (← changeLast (through f path) items))
    | some (.value _) => none

/-- Makes the table of a header. -/
def openTable (key : String) (ms : Sections) : Option Sections :=
  match ms.lookup? key with
  | none => some (ms.put key (.table .explicit []))
  | some (.table .implied inner) => some (ms.put key (.table .explicit inner))
  | some _ => none

/-- Adds a table to an array of tables. -/
def openItem (key : String) (ms : Sections) : Option Sections :=
  match ms.lookup? key with
  | none => some (ms.put key (.tables [[]]))
  | some (.tables items) => some (ms.put key (.tables (items ++ [[]])))
  | some _ => none

mutual

/-- The value that a section comes to. -/
def toValue : Section → Toml
  | .value v => v
  | .table _ ms => .table (toMembers ms)
  | .tables items => .array (toTables items)

/-- The members that the members of a section come to. -/
def toMembers : List (String × Section) → List (String × Toml)
  | [] => []
  | (key, s) :: ms => (key, toValue s) :: toMembers ms

/-- The tables that an array of tables comes to. -/
def toTables : List (List (String × Section)) → List Toml
  | [] => []
  | ms :: rest => .table (toMembers ms) :: toTables rest

end

end Sections

end GlyphRebase.Toml
