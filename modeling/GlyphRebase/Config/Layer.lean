import GlyphRebase.Config.Fault
import GlyphRebase.Config.KeyPath
import GlyphRebase.FileTree
import GlyphRebase.Text.Utf8
import GlyphRebase.Toml.Document

/-!
# Layers

A configuration is built from layers over the built-in defaults: files in the order in which they
are given, and over all of them the settings that are given one by one, wherever they stand.

The file of a path is the file at the path, or else at the path with `.toml` after it. A file that
was asked for has to be there and to be text. The local file of a directory may be missing, and is
passed over if it is no text; if it is text, it has to be a document like any other.
-/

namespace GlyphRebase.Config

/-- A layer of a configuration. -/
inductive Layer where
  /-- The file `keyfont.toml` of a directory, if there is one. -/
  | localFile (dir : String)
  /-- A file. -/
  | file (path : String)
  /-- One setting. -/
  | setting (key : String) (value : Scalar)
  deriving DecidableEq, Repr

/-- The settings that hold if nothing else is given. -/
def defaults : Value :=
  let text (s : String) : Value := .scalar (.text s) none
  let number (n : Int64) : Value := .scalar (.integer n) none
  let flag (b : Bool) : Value := .scalar (.boolean b) none
  .table [
    ("io", .table [
      ("input_path", text "input.txt"),
      ("output_path", text "output.txt"),
      ("atomic_output", flag false)] none),
    ("remap", .table [
      ("special_index", number 512),
      ("offset", number 0xBFB0),
      ("wrap_boundary", number 0x10000),
      ("negative_index", text "allow")] none),
    ("report", .table [
      ("progress", flag true),
      ("summary", text "text")] none)] none

/-! ### Files -/

/-- The name of the local file. -/
def localName : String := "keyfont.toml"

/-- What a path has after it if the file at the path itself is missing. -/
def fileEnding : String := ".toml"

/-- The path of the local file of a directory. -/
def localPath (dir : String) : String :=
  if dir.isEmpty then localName
  else if dir.toList.getLast? = some '/' then dir ++ localName
  else dir ++ "/" ++ localName

/-- The path with the ending after its last name, from the root. -/
def withEnding? (t : FileTree) (path : String) : Option String := do
  let names := (Path.ofText path).fromRoot t.home
  let last ← names.getLast?
  if last = ".." then none
  else return Path.toText ⟨true, names.dropLast ++ [last ++ fileEnding], false⟩

/-- The path at which the file for a path is found. -/
def find? (t : FileTree) (path : String) : Option String :=
  if t.isFile path then some path else (withEnding? t path).filter t.isFile

/-- The name of a file in messages, and its text. -/
def readText (t : FileTree) (path : String) : Except Fault (String × String) :=
  match find? t path with
  | none => .error (.notFound path)
  | some found =>
    match (t.read found).toOption.map Utf8.decode with
    | some (.ok text) => .ok ((Path.ofText found).seenFrom t.home, text)
    | _ => .error .notText

/-- Lays a setting of a file over a configuration. Its key is taken for a path if it is one. -/
def layMember (v : Value) (key : String) (new : Value) : Value :=
  match KeyPath.parse key with
  | some p => p.assign new v
  | none => v.set key new

/-- Lays the settings of a document over a configuration. -/
def layText (v : Value) (file text : String) : Except Fault Value :=
  match Toml.parse text with
  | none => .error (.badDocument file)
  | some ms =>
    .ok ((Value.ofMembers (some file) ms).foldl (fun v (key, new) => layMember v key new) v)

/-- Lays a layer over a configuration, unless it is a single setting. -/
def Layer.lay (t : FileTree) (v : Value) : Layer → Except Fault Value
  | .setting .. => .ok v
  | .file path => do
    let (name, text) ← readText t path
    layText v name text
  | .localFile dir =>
    match readText t (localPath dir) with
    | .ok (name, text) => layText v name text
    | .error _ => .ok v

/-! ### Single settings -/

/-- The path and the value of a single setting. -/
def Layer.setting? : Layer → Except Fault (Option (KeyPath × Value))
  | .setting key s =>
    match KeyPath.parse key with
    | some p => .ok (some (p, .scalar s none))
    | none => .error (.badKey key)
  | _ => .ok none

/-- The configuration that layers make. All keys are looked at before any file is read. -/
def build (t : FileTree) (layers : List Layer) : Except Fault Value := do
  let settings ← layers.mapM Layer.setting?
  let v ← layers.foldlM (Layer.lay t) defaults
  return (settings.filterMap id).foldl (fun v (p, new) => p.assign new v) v

end GlyphRebase.Config
