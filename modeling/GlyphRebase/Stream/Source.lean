import GlyphRebase.Stream.Fault

/-!
# Sources of bytes

A source delivers bytes in portions. It is given by its script: what the next deliveries are, each a
chunk of bytes or a failure. An empty chunk is what a reader takes for the end of the input, and so
is every look after the script has ended; a source may still deliver something after an empty
chunk. Bytes of the last chunk that no one has used stay ready.
-/

namespace GlyphRebase

/-- What a source does when it is asked for more. -/
inductive Delivery where
  /-- It has these bytes. -/
  | chunk (bytes : List UInt8)
  /-- It cannot deliver. -/
  | failure (fault : StreamFault)
  deriving DecidableEq, Repr

/-- How much a delivery holds: its bytes, and one for itself. -/
def Delivery.size : Delivery → Nat
  | .chunk bytes => bytes.length + 1
  | .failure _ => 1

/-- How much deliveries hold together. -/
def Delivery.total : List Delivery → Nat
  | [] => 0
  | d :: script => d.size + total script

/-- A source of bytes: what is ready, and what comes after that. -/
structure Source where
  ready : List UInt8
  script : List Delivery
  deriving DecidableEq, Repr

namespace Source

/-- All bytes are there at once. -/
def ofBytes (bytes : List UInt8) : Source := ⟨bytes, []⟩

/-- The chunks of `size` bytes that a text falls into. -/
def chunks (size : Nat) : Nat → List UInt8 → List Delivery
  | 0, _ => []
  | _ + 1, [] => []
  | n + 1, bytes => .chunk (bytes.take size) :: chunks size n (bytes.drop size)

/-- The bytes come through a buffer of the given size. -/
def buffered (size : Nat) (bytes : List UInt8) : Source :=
  ⟨[], chunks size bytes.length bytes⟩

/-- What the source delivers from now on, the bytes that are ready first. -/
def deliveries (s : Source) : List Delivery :=
  if s.ready.isEmpty then s.script else .chunk s.ready :: s.script

/-- How much there is to come. -/
def size (s : Source) : Nat := Delivery.total s.deliveries

end Source

end GlyphRebase
