import GlyphRebase.Config.Layer
import GlyphRebase.Rules

/-!
# Settings

The settings of a run, as they are read from a configuration. Every setting is of a type and takes
what can be understood as a value of it: a number for a flag, a text for a number. A section is a
table, or a list of its settings in their order. Whatever else is in the configuration is passed
over.
-/

namespace GlyphRebase.Config

/-- The forms of the final report. -/
inductive SummaryFormat where
  /-- A line for people, if there is something to tell. -/
  | text
  /-- A JSON object. -/
  | json
  deriving DecidableEq, Repr

/-- The word for a form. -/
def SummaryFormat.name : SummaryFormat → String
  | .text => "text"
  | .json => "json"

/-- What a run is to do. -/
structure Settings where
  /-- The glyph table to read. -/
  input : String
  /-- The rebased table to write. -/
  output : String
  /-- Does the output change only once the whole table was written? -/
  atomic : Bool
  /-- The rules of rebasing. -/
  rules : Rules
  /-- Is every line announced? -/
  progress : Bool
  /-- The form of the final report. -/
  summary : SummaryFormat
  deriving DecidableEq, Repr

/-! ### Types -/

/-- The words for yes and for no. -/
def truth? (word : String) : Option Bool :=
  if word ∈ ["true", "on", "yes"] then some true
  else if word ∈ ["false", "off", "no"] then some false
  else none

/-- A text in words. -/
def describeText (s : String) : String := (Scalar.text s).describe

/-- The fault of a value that is of another type. -/
def mismatch (key found expected : String) (v : Value) : Fault :=
  .badType key found expected v.origin?

/-- The whole number that a value is understood as. -/
def toInt (key : String) : Value → Except Fault Int64
  | .scalar (.integer n) _ => .ok n
  | .scalar (.boolean b) _ => .ok (if b then 1 else 0)
  | .scalar (.float x) _ => .ok x.toInt64
  | .scalar (.text s) origin =>
    match truth? (Text.lowercase s), Number.readSigned 10 s.toList with
    | some b, _ => .ok (if b then 1 else 0)
    | none, .ok n => .ok n
    | none, .error _ => .error (.badType key (describeText s) "an integer" origin)
  | v => .error (mismatch key v.describe "an integer" v)

/-- The flag that a value is understood as. -/
def toBool (key : String) : Value → Except Fault Bool
  | .scalar (.boolean b) _ => .ok b
  | .scalar (.integer n) _ => .ok (n != 0)
  | .scalar (.float x) _ => .ok !x.isZero
  | .scalar (.text s) origin =>
    let word := Text.lowercase s
    if word = "1" then .ok true
    else if word = "0" then .ok false
    else
      match truth? word with
      | some b => .ok b
      | none => .error (.badType key (describeText word) "a boolean" origin)
  | v => .error (mismatch key v.describe "a boolean" v)

/-- The text that a value is understood as. -/
def toText (key : String) : Value → Except Fault String
  | .scalar s _ => .ok s.render
  | v => .error (mismatch key v.describe "a string" v)

/-- The one of several choices whose name a value is, in whatever case. A table with one key stands
for its key. -/
def toChoice {α : Type} (type : String) (choices : List (String × α)) (v : Value) :
    Except Fault α :=
  let named (name : String) : Except Fault α :=
    match choices.find? fun c => c.1 == Text.lowercase name with
    | some c => .ok c.2
    | none => .error (.unknownChoice type name)
  match v with
  | .scalar (.text name) _ => named name
  | .table [(name, _)] _ => named name
  | _ => .error (.noChoice type)

/-- The policy that a value names. -/
def toPolicy : Value → Except Fault NegativePolicy :=
  toChoice "NegativeIndexPolicy" [("allow", .allow), ("reject", .reject)]

/-- The form of the report that a value names. -/
def toSummaryFormat : Value → Except Fault SummaryFormat :=
  toChoice "SummaryFormat" [("text", .text), ("json", .json)]

/-! ### Sections -/

/-- A section of the settings. -/
structure Schema where
  /-- Its key. -/
  key : String
  /-- What it is called in messages. -/
  type : String
  /-- The keys of its settings in order. -/
  fields : List String
  deriving DecidableEq, Repr

namespace Schema

/-- Where files come from and go to. -/
def io : Schema := ⟨"io", "IoConfig", ["input_path", "output_path", "atomic_output"]⟩

/-- The rules. -/
def remap : Schema :=
  ⟨"remap", "RemapRules", ["special_index", "offset", "wrap_boundary", "negative_index"]⟩

/-- What is reported. -/
def report : Schema := ⟨"report", "ReportConfig", ["progress", "summary"]⟩

/-- The setting at a position of the section, read as a value of its type. Its name in messages is
its key, or its position if the section is a list. -/
def get? {α : Type} (s : Schema) (v : Value) (i : Nat) (read : String → Value → Except Fault α) :
    Except Fault (Option α) :=
  match v with
  | .table ms _ =>
    let field := s.fields.getD i ""
    (Members.get? ms field).mapM (read (s.key ++ "." ++ field))
  | .list items _ => items[i]?.mapM (read (s.key ++ "[" ++ toString i ++ "]"))
  | v => .error (.noSection v.describe s.type)

/-- The setting that has to be at a position of the section. -/
def require {α : Type} (s : Schema) (v : Value) (i : Nat) : Option α → Except Fault α
  | some a => .ok a
  | none =>
    match v with
    | .list .. => .error (.tooShort i s.type s.fields.length)
    | _ => .error (.missing (s.fields.getD i ""))

/-- The value of the section. -/
def section? (s : Schema) (v : Value) : Except Fault Value :=
  match v.asTable.1.get? s.key with
  | some v => .ok v
  | none => .error (.missing s.key)

end Schema

/-- The rules that a section gives. -/
def toRules (v : Value) : Except Fault Rules := do
  let s := Schema.remap
  let special ← s.get? v 0 toInt
  let offset ← s.get? v 1 toInt
  let boundary ← s.get? v 2 toInt
  let negative ← s.get? v 3 fun _ => toPolicy
  return {
    special := ← s.require v 0 special
    offset := ← s.require v 1 offset
    boundary := ← s.require v 2 boundary
    negative := negative.getD .allow }

/-- The settings that a configuration gives. -/
def Settings.ofValue (v : Value) : Except Fault Settings := do
  let io ← Schema.io.section? v
  let remap ← Schema.remap.section? v
  let report ← Schema.report.section? v
  let input ← Schema.io.get? io 0 toText
  let output ← Schema.io.get? io 1 toText
  let atomic ← Schema.io.get? io 2 toBool
  let input ← Schema.io.require io 0 input
  let output ← Schema.io.require io 1 output
  let atomic ← Schema.io.require io 2 atomic
  let rules ← toRules remap
  let progress ← Schema.report.get? report 0 toBool
  let summary ← Schema.report.get? report 1 fun _ => toSummaryFormat
  return {
    input, output, atomic, rules
    progress := ← Schema.report.require report 0 progress
    summary := ← Schema.report.require report 1 summary }

/-- The settings that layers give. -/
def load (t : FileTree) (layers : List Layer) : Except Fault Settings := do
  Settings.ofValue (← build t layers)

end GlyphRebase.Config
