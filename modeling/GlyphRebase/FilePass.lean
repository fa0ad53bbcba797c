import GlyphRebase.FileTree
import GlyphRebase.Pass
import GlyphRebase.Stream.BufferedFile

/-!
# The pass from file to file

The input is opened first, then the output. A direct pass empties the output, or makes it, before
it reads the first line; whatever it wrote stays there. An atomic pass writes into a temporary file
beside the output, which takes the place of the output once the whole table was written and is
removed if anything goes wrong. A temporary file that is to replace a file is made for its owner
alone, and then gets the permission bits of that file.

The output is written through a buffer, so what it cannot hold comes to light when the buffer is
passed on. The file is closed when the pass is over, whether or not it has come to its end, and
what it refuses then is not reported.

A fault of the input or the output is reported with the path of the file.

The tree tells what an operation comes to on files that are in order. Whatever else may go wrong
with them is left to a `System`, which may refuse an operation, break off the reading, or have no
room for what is written.
-/

namespace GlyphRebase

/-- The error with the path of the file that is at fault. -/
def PassError.inFiles (input output : String) : PassError → PassError
  | .read fault => .file input fault
  | .write fault => .file output fault
  | e => e

/-- What a pass asks of the system that keeps the files. -/
inductive Request where
  /-- To open the input. -/
  | openInput
  /-- To make or to empty the output. -/
  | createOutput
  /-- To make a temporary file. -/
  | makeTemporary
  /-- To give the temporary file its permission bits. -/
  | setPermissions
  /-- To put the temporary file in the place of the output. -/
  | replaceOutput
  deriving DecidableEq, Repr

/-- What goes wrong on a system although the tree is in order. -/
structure System where
  /-- Why it refuses a request. -/
  refuses? : Request → Option StreamFault := fun _ => none
  /-- After how many bytes the input cannot be read any further, and why. -/
  breaksOff? : Option (Nat × StreamFault) := none
  /-- For how many bytes the output has room, if not for all, and why it takes no more. -/
  room? : Option (Nat × StreamFault) := none
  /-- Why the output cannot be flushed, if it cannot. -/
  flushFault? : Option StreamFault := none

namespace System

/-- Nothing goes wrong. -/
def sound : System := {}

/-- What an operation comes to, unless the system refuses it. -/
def attempt {α : Type} (s : System) (r : Request) (x : Except FileFault α) :
    Except StreamFault α :=
  match s.refuses? r with
  | some fault => .error fault
  | none => x.mapError (·.toStreamFault)

/-- The source that reads a file with the given bytes. -/
def sourceOf (s : System) (bytes : List UInt8) : Source :=
  match s.breaksOff? with
  | some (n, fault) => ⟨bytes.take n, [.failure fault]⟩
  | none => .ofBytes bytes

/-- The empty file that a pass writes to, behind its buffer. -/
def target (s : System) : BufferedFile :=
  { file := { limit? := s.room?, flushFault? := s.flushFault? } }

end System

/-- What a pass from file to file did. -/
structure FileReport where
  /-- How it ended. -/
  result : Except PassError Summary
  /-- What it did, in order. -/
  events : List Event
  /-- The files it left. -/
  tree : FileTree

namespace FileReport

/-- The lines that were announced. -/
def steps (r : FileReport) : List Step := r.events.filterMap Event.step?

/-- The summary that was announced at the end. -/
def finished? (r : FileReport) : Option Summary := r.events.findSome? Event.summary?

end FileReport

namespace FilePass

/-- The source that reads what stands at a place. -/
def sourceAt (system : System) (t : FileTree) (l : Location) : Source :=
  match t.node? l with
  | some (.file bytes _) => system.sourceOf bytes
  | _ => ⟨[], [.failure FileFault.isDirectory.toStreamFault]⟩

/-- The report of a pass that did not begin. -/
def refused (path : String) (fault : StreamFault) (t : FileTree) : FileReport :=
  ⟨.error (.file path fault), [], t⟩

/-- The report of a pass over files that came out as the given pass. -/
def reported (input output : String) (r : Report BufferedFile) (t : FileTree) :
    FileReport :=
  ⟨r.result.mapError (·.inFiles input output), r.events, t⟩

/-- The pass that writes into the output itself. -/
def runDirect (system : System) (rules : Rules) (input output : String) (t : FileTree) :
    FileReport :=
  match system.attempt .openInput (t.look input) with
  | .error fault => refused input fault t
  | .ok source =>
    match system.attempt .createOutput (t.create output) with
    | .error fault => refused output fault t
    | .ok (target, t) =>
      let r := Pass.run rules (sourceAt system t source) system.target
      reported input output r (t.write target r.sink.contents)

/-- The permission bits that the temporary file is made with. -/
def temporaryMode (t : FileTree) (output : String) : Nat :=
  if (t.mode? output).isSome then t.privateMode else t.newMode

/-- Makes the temporary file that is to become the output. One that does not get the permission
bits of the output is removed again. -/
def stageOutput (system : System) (output : String) (t : FileTree) :
    Except StreamFault Location × FileTree :=
  let dir := (Path.ofText output).parent.toText
  match system.attempt .makeTemporary (t.stage dir (temporaryMode t output)) with
  | .error fault => (.error fault, t)
  | .ok (staged, made) =>
    match t.mode? output with
    | none => (.ok staged, made)
    | some mode =>
      match system.attempt .setPermissions (.ok (made.setMode staged mode)) with
      | .error fault => (.error fault, made.erase staged)
      | .ok made => (.ok staged, made)

/-- Puts the temporary file in the place of the output, or removes it. -/
def replaceOutput (system : System) (input output : String) (staged : Location)
    (r : Report BufferedFile) (t : FileTree) : FileReport :=
  match system.attempt .replaceOutput (t.rename staged output) with
  | .error fault => ⟨.error (.file output fault), r.events, t.erase staged⟩
  | .ok t => reported input output r t

/-- The pass that writes into a temporary file, which then becomes the output. -/
def runAtomic (system : System) (rules : Rules) (input output : String) (t : FileTree) :
    FileReport :=
  match system.attempt .openInput (t.look input) with
  | .error fault => refused input fault t
  | .ok source =>
    match stageOutput system output t with
    | (.error fault, t) => refused output fault t
    | (.ok staged, t) =>
      let r := Pass.run rules (sourceAt system t source) system.target
      let t := t.write staged r.sink.contents
      match r.result with
      | .error _ => reported input output r (t.erase staged)
      | .ok _ => replaceOutput system input output staged r t

/-- The pass in either way, on a given system. -/
def runOn (system : System) (rules : Rules) (atomic : Bool) (input output : String)
    (t : FileTree) : FileReport :=
  if atomic then runAtomic system rules input output t
  else runDirect system rules input output t

/-- The pass in either way, when nothing goes wrong but what the tree tells. -/
def run (rules : Rules) (atomic : Bool) (input output : String) (t : FileTree) : FileReport :=
  runOn .sound rules atomic input output t

end FilePass

end GlyphRebase
