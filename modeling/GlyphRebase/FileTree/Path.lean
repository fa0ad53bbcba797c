import GlyphRebase.FileTree.Fault

/-!
# Paths

A path is a text: names between slashes. It starts at the root if it starts with a slash, and at
the working directory otherwise. Slashes in a row count as one, and one at the end demands that the
last name is that of a directory.
-/

namespace GlyphRebase

/-- A path in parts. -/
structure Path where
  /-- Does it start at the root? -/
  absolute : Bool
  /-- Its names in order, `.` and `..` among them. -/
  names : List String
  /-- Does a slash follow the last name? -/
  slashed : Bool
  deriving DecidableEq, Repr

namespace Path

/-- The texts between the slashes. -/
def segments : List Char → List (List Char)
  | [] => [[]]
  | c :: cs =>
    if c = '/' then [] :: segments cs
    else
      match segments cs with
      | [] => [[c]]
      | s :: ss => (c :: s) :: ss

/-- The parts of a text. -/
def ofText (text : String) : Path :=
  let names := (segments text.toList).filter (!·.isEmpty)
  { absolute := text.toList.head? == some '/'
    names := names.map String.ofList
    slashed := !names.isEmpty && text.toList.getLast? == some '/' }

/-- The text of a path. -/
def toText (p : Path) : String :=
  (if p.absolute then "/" else "") ++ "/".intercalate p.names ++ (if p.slashed then "/" else "")

/-- The most bytes that a name has. -/
def longestName : Nat := 255

/-- The most bytes that a path has. -/
def longestPath : Nat := 4095

/-- The parts of a text that an operation on files is given. -/
def parse (text : String) : Except FileFault Path :=
  if text.toList.contains '\x00' then .error .zeroCharacter
  else if text.isEmpty then .error .noEntry
  else if longestPath < text.utf8ByteSize then .error .nameTooLong
  else .ok (ofText text)

/-- The names without those that stand for the directory they are in. Such a name counts only at
the start of a path that does not start at the root. -/
def essential (p : Path) : List String :=
  if p.absolute then p.names.filter (· ≠ ".")
  else p.names.take 1 ++ (p.names.drop 1).filter (· ≠ ".")

/-- The directory that a path names its last part in, as far as the text tells. -/
def parent (p : Path) : Path :=
  match p.absolute, p.essential with
  | _, [] | false, [_] => ⟨false, ["."], false⟩
  | absolute, names => ⟨absolute, names.dropLast, false⟩

/-- The names that lead from the root to what the path names. -/
def fromRoot (home : List String) (p : Path) : List String :=
  (if p.absolute then p.names else home ++ p.names).filter (· ≠ ".")

/-- The way from one directory to another place, as far as the names tell. -/
def way : List String → List String → List String
  | h :: home, n :: names =>
    if h = n then way home names else List.replicate (home.length + 1) ".." ++ n :: names
  | home, names => List.replicate home.length ".." ++ names

/-- The text of the path as it is seen from a directory. -/
def seenFrom (home : List String) (p : Path) : String :=
  "/".intercalate (way home (p.fromRoot home))

end Path

end GlyphRebase
