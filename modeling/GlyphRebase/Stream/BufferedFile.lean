import GlyphRebase.Stream.Sink

/-!
# Files behind a buffer

A file that is open for writing takes bytes until it is full. What is written to it is held in a
buffer and passed on when the next bytes do not fit into the buffer any more, when it is flushed,
and when it is closed. Bytes that fill a buffer by themselves do not go through it.

So a file that is full is noticed late. The write that fails is the first one that passes on more
than the file can hold, and its bytes need not be those that the file refuses. What is passed on
when the file is closed may be refused without anyone noticing.
-/

namespace GlyphRebase

/-- A file that is open for writing. -/
structure OpenFile where
  /-- The bytes written so far. -/
  written : Array UInt8 := #[]
  /-- How many bytes the file can hold, if not all, and why it takes no more. -/
  limit? : Option (Nat × StreamFault) := none
  /-- Why the file cannot be flushed, if it cannot. -/
  flushFault? : Option StreamFault := none
  deriving DecidableEq, Repr

namespace OpenFile

/-- Writes bytes, as many of them as the file can hold. -/
def writeAll (f : OpenFile) (bytes : List UInt8) : Except StreamFault Unit × OpenFile :=
  match f.limit? with
  | none => (.ok (), { f with written := f.written ++ bytes })
  | some (limit, fault) =>
    let room := limit - f.written.size
    (if bytes.length ≤ room then .ok () else .error fault,
      { f with written := f.written ++ bytes.take room })

/-- Asks the file to keep what was written. -/
def flush (f : OpenFile) : Except StreamFault Unit :=
  match f.flushFault? with
  | none => .ok ()
  | some fault => .error fault

end OpenFile

/-- An open file, and the bytes that are held for it. -/
structure BufferedFile where
  file : OpenFile
  held : Array UInt8 := #[]
  deriving DecidableEq, Repr

namespace BufferedFile

/-- How many bytes are held at most. -/
def capacity : Nat := 8192

/-- Passes on the bytes held. If the file does not take all of them, the others are still held. -/
def drain (b : BufferedFile) : Except StreamFault Unit × BufferedFile :=
  match b.file.writeAll b.held.toList with
  | (.ok (), file) => (.ok (), ⟨file, #[]⟩)
  | (.error fault, file) =>
    (.error fault, ⟨file, b.held.drop (file.written.size - b.file.written.size)⟩)

/-- Makes space for `n` more bytes. -/
def makeSpace (b : BufferedFile) (n : Nat) : Except StreamFault Unit × BufferedFile :=
  if b.held.size + n ≤ capacity then (.ok (), b) else b.drain

/-- Holds bytes for which space was made, or passes them on if they fill a buffer. -/
def accept (b : BufferedFile) (bytes : List UInt8) : Except StreamFault Unit × BufferedFile :=
  if bytes.length < capacity then (.ok (), { b with held := b.held ++ bytes })
  else
    match b.file.writeAll bytes with
    | (result, file) => (result, { b with file })

/-- Takes bytes, and passes on what is held if they do not fit beside it. -/
def writeAll (b : BufferedFile) (bytes : List UInt8) : Except StreamFault Unit × BufferedFile :=
  match b.makeSpace bytes.length with
  | (.ok (), b) => b.accept bytes
  | (.error fault, b) => (.error fault, b)

/-- Passes on what is held, and flushes the file. -/
def flush (b : BufferedFile) : Except StreamFault Unit × BufferedFile :=
  match b.drain with
  | (.ok (), b) => (b.file.flush, b)
  | (.error fault, b) => (.error fault, b)

/-- The bytes of the file once it is closed. What is still held is passed on before, as far as the
file takes it. -/
def contents (b : BufferedFile) : List UInt8 := b.drain.2.file.written.toList

instance : Writable BufferedFile := ⟨writeAll, flush⟩

end BufferedFile

end GlyphRebase
