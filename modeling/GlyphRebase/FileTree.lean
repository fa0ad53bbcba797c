import GlyphRebase.FileTree.Path

/-!
# File trees

A file tree says what stands at which place: a file, a directory or a symbolic link. The places are
listed in the order in which they came into being; the root, which is always there, is not listed.
Permission bits are kept, and restrict nothing.

`FileTree.place` follows a path. It goes through directories name by name, replaces a link by its
target, at most forty times, and treats a link at the end as the purpose of the operation asks.
-/

namespace GlyphRebase

/-- A place in a file tree: the names that lead there from the root. -/
abbrev Location := List String

/-- What stands at a place. -/
inductive Node where
  /-- A file, with its bytes and its permission bits. -/
  | file (bytes : List UInt8) (mode : Nat)
  /-- A directory, with its permission bits. -/
  | directory (mode : Nat)
  /-- A symbolic link to a path. -/
  | link (target : String)
  deriving DecidableEq, Repr

/-- A tree of files, and what operations on it start from. -/
structure FileTree where
  /-- What stands where. -/
  nodes : List (Location × Node)
  /-- The working directory. -/
  home : Location
  /-- The permission bits that a new file does not get. -/
  umask : Nat
  deriving DecidableEq, Repr

namespace FileTree

/-- What stands at a place. -/
def node? (t : FileTree) (l : Location) : Option Node :=
  if l.isEmpty then some (.directory 0o755) else (t.nodes.find? (·.1 == l)).map (·.2)

/-- The tree with something at a place, instead of what was there. -/
def put (t : FileTree) (l : Location) (n : Node) : FileTree :=
  if t.nodes.any (·.1 == l) then
    { t with nodes := t.nodes.map fun p => if p.1 = l then (l, n) else p }
  else { t with nodes := t.nodes ++ [(l, n)] }

/-- The tree with nothing at a place. -/
def erase (t : FileTree) (l : Location) : FileTree :=
  { t with nodes := t.nodes.filter (·.1 != l) }

/-- What stands below a place, by the names that lead there, each directory before what is in it
and the names in a directory in ascending order. -/
def below (t : FileTree) (l : Location) : List (Location × Node) :=
  let inside := t.nodes.filter fun p => l.isPrefixOf p.1 && l.length < p.1.length
  (inside.map fun p => (p.1.drop l.length, p.2)).mergeSort fun p q => !q.1.lex p.1

/-! ### Following paths -/

/-- What a path is followed for. -/
inductive Purpose where
  /-- To find what is there. -/
  | look
  /-- To open a file, which is made if there is none. -/
  | create
  /-- To put something in the place of whatever is there, be it a link. -/
  | replace
  deriving DecidableEq, Repr

/-- Where a path leads. -/
inductive Place where
  /-- To a directory that is there. -/
  | directory (l : Location)
  /-- To a name in a directory that is there. -/
  | named (dir : Location) (name : String) (slashed : Bool)
  deriving DecidableEq, Repr

namespace Place

/-- Where the place is. -/
def location : Place → Location
  | directory l => l
  | named dir name _ => dir ++ [name]

/-- Does the path demand that it is a directory? -/
def slashed : Place → Bool
  | directory _ => true
  | named _ _ slashed => slashed

end Place

/-- How many links a path may go through. -/
def mostLinks : Nat := 40

/-- Follows names from a directory on. What a link leads to is left to `follow`. -/
def walkWith (t : FileTree) (purpose : Purpose)
    (follow : Location → List String → Bool → Except FileFault Place) (slashed : Bool) :
    Location → List String → Except FileFault Place
  | here, [] => .ok (.directory here)
  | here, name :: rest =>
    if name = "." then walkWith t purpose follow slashed here rest
    else if name = ".." then walkWith t purpose follow slashed here.dropLast rest
    else if rest.isEmpty ∧ slashed ∧ purpose = .create then .ok (.named here name slashed)
    else if Path.longestName < name.utf8ByteSize then .error .nameTooLong
    else
      match t.node? (here ++ [name]) with
      | some (.link target) =>
        if rest.isEmpty ∧ purpose = .replace then .ok (.named here name slashed)
        else
          let p := Path.ofText target
          follow (if p.absolute then [] else here) (p.names ++ rest)
            (slashed || rest.isEmpty && p.slashed)
      | node =>
        if rest.isEmpty then .ok (.named here name slashed)
        else
          match node with
          | some (.directory _) => walkWith t purpose follow slashed (here ++ [name]) rest
          | some _ => .error .notDirectory
          | none => .error .noEntry

/-- Follows names from a directory on, through so many links at most. -/
def walk (t : FileTree) (purpose : Purpose) :
    Nat → Location → List String → Bool → Except FileFault Place
  | 0, here, names, slashed =>
    walkWith t purpose (fun _ _ _ => .error .tooManyLinks) slashed here names
  | links + 1, here, names, slashed =>
    walkWith t purpose (walk t purpose links) slashed here names

/-- Where a path leads. -/
def place (t : FileTree) (purpose : Purpose) (path : String) : Except FileFault Place := do
  let p ← Path.parse path
  walk t purpose mostLinks (if p.absolute then [] else t.home) p.names p.slashed

/-- What there is to find at the end of a path. -/
def look (t : FileTree) (path : String) : Except FileFault Location := do
  let place ← t.place .look path
  match t.node? place.location with
  | none => throw .noEntry
  | some (.directory _) => return place.location
  | some _ => if place.slashed then throw .notDirectory else return place.location

/-- The permission bits of what a path leads to. -/
def mode? (t : FileTree) (path : String) : Option Nat :=
  match (t.look path).toOption.bind t.node? with
  | some (.file _ mode) | some (.directory mode) => some mode
  | _ => none

/-- The bytes of the file that a path leads to. -/
def read (t : FileTree) (path : String) : Except FileFault (List UInt8) := do
  match t.node? (← t.look path) with
  | some (.file bytes _) => return bytes
  | some (.directory _) => throw .isDirectory
  | _ => throw .noEntry

/-- Does a path lead to a file? -/
def isFile (t : FileTree) (path : String) : Bool := (t.read path).toBool

/-! ### Changing files -/

/-- The permission bits of a new file for which some are asked. -/
def grantedMode (t : FileTree) (asked : Nat) : Nat := asked &&& (0o777 ^^^ t.umask)

/-- The permission bits of a new file. -/
def newMode (t : FileTree) : Nat := t.grantedMode 0o666

/-- The permission bits of a new file that is for its owner alone. -/
def privateMode (t : FileTree) : Nat := t.grantedMode 0o600

/-- Makes an empty file at the end of a path, or empties the one that is there. -/
def create (t : FileTree) (path : String) : Except FileFault (Location × FileTree) := do
  match ← t.place .create path with
  | .directory _ => throw .isDirectory
  | .named dir name slashed =>
    if slashed then throw .isDirectory
    let l := dir ++ [name]
    match t.node? l with
    | some (.file _ mode) => return (l, t.put l (.file [] mode))
    | none => return (l, t.put l (.file [] t.newMode))
    | some _ => throw .isDirectory

/-- Gives the file at a place new bytes. -/
def write (t : FileTree) (l : Location) (bytes : List UInt8) : FileTree :=
  match t.node? l with
  | some (.file _ mode) => t.put l (.file bytes mode)
  | _ => t

/-- Gives what stands at a place other permission bits. -/
def setMode (t : FileTree) (l : Location) (mode : Nat) : FileTree :=
  match t.node? l with
  | some (.file bytes _) => t.put l (.file bytes mode)
  | some (.directory _) => t.put l (.directory mode)
  | _ => t

/-- The name of a temporary file. -/
def temporaryName (n : Nat) : String := ".tmp" ++ toString n

/-- Makes an empty temporary file in the directory that a path leads to. -/
def stage (t : FileTree) (dir : String) (mode : Nat) : Except FileFault (Location × FileTree) := do
  let dir ← t.look dir
  match t.node? dir with
  | some (.directory _) =>
    let candidates := (List.range (t.nodes.length + 1)).map fun n => dir ++ [temporaryName n]
    match candidates.find? fun l => (t.node? l).isNone with
    | some l => return (l, t.put l (.file [] mode))
    | none => throw .noFreeName
  | _ => throw .notDirectory

/-- Moves the file at a place to the end of a path, in the place of a file or link there. -/
def rename (t : FileTree) (l : Location) (path : String) : Except FileFault FileTree := do
  if path.toList.contains '\x00' then throw .invalidArgument
  match ← t.place .replace path with
  | .directory _ => throw .busy
  | .named dir name slashed =>
    if slashed then throw .notDirectory
    match t.node? (dir ++ [name]), t.node? l with
    | some (.directory _), _ => throw .isDirectory
    | _, none => throw .noEntry
    | _, some n => return (t.erase l).put (dir ++ [name]) n

end FileTree

end GlyphRebase
