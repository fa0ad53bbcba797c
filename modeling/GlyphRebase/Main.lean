import GlyphRebase.CommandLine

/-!
# The program

A run on the files of the machine. Everything that the run may look at is read into a file tree
first: the files of the configuration, and the input and the output that it names. The run itself
is `CommandLine.run` on that tree. What it changed is written back, and what it prints is printed.

Permission bits are not seen from here. A new file gets those that the system gives it.
-/

namespace GlyphRebase.Disk

/-- The text of the path to a place. -/
def textOf (l : Location) : String := Path.toText ⟨true, l, false⟩

/-- A file with the bytes that can be read at a place. -/
def readable? (l : Location) : IO (Option Node) := do
  match ← EIO.toBaseIO (IO.FS.readBinFile (textOf l)) with
  | .error _ => return none
  | .ok bytes => return some (.file bytes.toList 0o644)

/-- What stands at a place. A link leads straight to where it ends. The bytes of what is neither a
file nor a directory are read only if they are wanted. -/
def nodeAt? (wanted : Bool) (l : Location) : IO (Option Node) := do
  match ← EIO.toBaseIO (IO.FS.realPath (textOf l)) with
  | .error _ => if wanted then readable? l else return none
  | .ok path =>
    if path.toString ≠ textOf l then return some (.link path.toString)
    let type := (← path.metadata).type
    if type == .dir then return some (.directory 0o755)
    if type == .file || wanted then return some (.file (← IO.FS.readBinFile path).toList 0o644)
    return some (.file [] 0o644)

/-- The tree with what stands at a place. -/
def surveyPlace (wanted : Bool) (t : FileTree) (l : Location) : IO FileTree := do
  if (t.node? l).isSome then return t
  return ((← nodeAt? wanted l).map (t.put l)).getD t

/-- The tree with what stands on the way from the root to a place that no link leads away from. -/
def surveyReal (wanted : Bool) (t : FileTree) (l : Location) : IO FileTree :=
  (List.range l.length).foldlM (fun t n => surveyPlace wanted t (l.take (n + 1))) t

/-- The tree with what stands on the way along names. -/
def surveyNames (wanted : Bool) (t : FileTree) : Location → List String → IO FileTree
  | _, [] => return t
  | here, name :: names => do
    if name = "." then surveyNames wanted t here names
    else if name = ".." then surveyNames wanted t here.dropLast names
    else
      let l := here ++ [name]
      let t ← surveyPlace wanted t l
      match t.node? l with
      | some (.link target) =>
        let target := (Path.ofText target).names
        surveyNames wanted (← surveyReal wanted t target) target names
      | _ => surveyNames wanted t l names

/-- The tree with what stands on the way along a path. -/
def survey (wanted : Bool) (t : FileTree) (path : String) : IO FileTree :=
  let p := Path.ofText path
  surveyNames wanted t (if p.absolute then [] else t.home) p.names

/-- The tree with the files that a path of the configuration may stand for. -/
def surveyConfig (t : FileTree) (path : String) : IO FileTree :=
  ([path] ++ (Config.withEnding? t path).toList).foldlM (survey true) t

/-- The tree with the files of a layer. -/
def surveyLayer (t : FileTree) : Config.Layer → IO FileTree
  | .localFile dir => surveyConfig t (Config.localPath dir)
  | .file path => surveyConfig t path
  | .setting .. => return t

/-- The tree with nothing but the way to the working directory. -/
def surveyHome : IO FileTree := do
  let home := (Path.ofText (← IO.FS.realPath ".").toString).names
  surveyReal false ⟨[], home, 0o022⟩ home

/-- The tree with all that a run may look at, and whether the run is to be atomic. -/
def surveyRun (arguments : List String) : IO (FileTree × Bool) := do
  let t ← surveyHome
  match CommandLine.Options.read arguments with
  | .error _ => return (t, false)
  | .ok o =>
    let t ← o.layers.foldlM surveyLayer t
    match Config.load t o.layers with
    | .error _ => return (t, false)
    | .ok s => return (← survey false (← survey true t s.input) s.output, s.atomic)

/-- How many names are tried for a temporary file. -/
def mostAttempts : Nat := 1000

/-- Writes into a temporary file, which then takes the place of what is there. -/
def replaceFile (l : Location) (bytes : ByteArray) : IO Unit := do
  for n in List.range mostAttempts do
    let staged := textOf (l.dropLast ++ [FileTree.temporaryName n])
    match ← EIO.toBaseIO (IO.FS.Handle.mk staged .writeNew) with
    | .ok handle =>
      try
        handle.write bytes
        handle.flush
        IO.FS.rename staged (textOf l)
        return
      catch e =>
        IO.FS.removeFile staged
        throw e
    | .error (.alreadyExists ..) => continue
    | .error e => throw e
  throw (IO.userError FileFault.noFreeName.toStreamFault.text)

/-- Writes the files that a run changed. -/
def store (atomic : Bool) (before after : FileTree) : IO Unit := do
  for (l, node) in after.nodes do
    if before.node? l ≠ some node then
      match node with
      | .file bytes _ =>
        if atomic then replaceFile l ⟨bytes.toArray⟩
        else IO.FS.writeBinFile (textOf l) ⟨bytes.toArray⟩
      | _ => continue

/-- A run with its arguments, and its exit code. -/
def run (arguments : List String) : IO UInt32 := do
  let (before, atomic) ← surveyRun arguments
  let outcome := CommandLine.run before arguments
  store atomic before outcome.tree
  (← IO.getStdout).putStr outcome.output
  (← IO.getStderr).putStr outcome.complaint
  return outcome.exitCode.toUInt32

end GlyphRebase.Disk

/-- The program. A fault that the file tree did not show is its last word. -/
def main (arguments : List String) : IO UInt32 := do
  try
    GlyphRebase.Disk.run arguments
  catch e =>
    (← IO.getStderr).putStrLn (GlyphRebase.CommandLine.errorText e.toString)
    return 1
