import GlyphRebase.Stream.Fault

/-!
# Sinks of bytes

What can be written to takes all of some bytes or fails, and passes on what it took when it is
flushed (`Writable`).

A sink takes bytes, and may be at fault in four ways: there is room for so many bytes only, a write
takes so many at most, the first writes are interrupted, or no flush succeeds. `Sink.writeAll`
writes until everything is taken. It tries an interrupted write again; every other fault ends it,
and what was taken by then stays taken.
-/

namespace GlyphRebase

/-- What can be written to. -/
class Writable (σ : Type) where
  /-- Takes all of some bytes, or fails after it has taken some. -/
  writeAll : σ → List UInt8 → Except StreamFault Unit × σ
  /-- Passes on what was taken, or fails. -/
  flush : σ → Except StreamFault Unit × σ

/-- A sink of bytes. -/
structure Sink where
  /-- The bytes taken so far. -/
  taken : Array UInt8 := #[]
  /-- How many flushes were asked for. -/
  flushes : Nat := 0
  /-- For how many bytes more there is room, if not for all. -/
  room? : Option Nat := none
  /-- Does a sink without room take no byte, instead of refusing the write? -/
  stallsWhenFull : Bool := false
  /-- How many bytes one write takes at most, if not all. -/
  portion? : Option Nat := none
  /-- How many writes from now on are interrupted. -/
  interrupts : Nat := 0
  /-- Does every flush fail? -/
  flushFails : Bool := false
  deriving DecidableEq, Repr

namespace Sink

/-- A sink without a fault. -/
def perfect : Sink := {}

/-- A write is refused for want of room. -/
def fullFault : StreamFault := ⟨.other, "disk full"⟩

/-- A write takes not one byte. -/
def stallFault : StreamFault := ⟨.writeZero, "failed to write whole buffer"⟩

/-- A flush fails. -/
def flushFault : StreamFault := ⟨.other, "flush failed"⟩

/-- What a write comes to. -/
inductive Written where
  /-- It was interrupted. -/
  | interrupted
  /-- There is no room. -/
  | refused
  /-- So many bytes were taken. -/
  | took (count : Nat)
  deriving DecidableEq, Repr

/-- How many of `n` bytes there is room for in one write. -/
def fits (s : Sink) (n : Nat) : Nat := min (s.room?.getD n) (min (s.portion?.getD n) n)

/-- One write of bytes. -/
def write (s : Sink) (bytes : List UInt8) : Written × Sink :=
  if 0 < s.interrupts then (.interrupted, { s with interrupts := s.interrupts - 1 })
  else if s.room? = some 0 ∧ !s.stallsWhenFull then (.refused, s)
  else
    let n := s.fits bytes.length
    (.took n, { s with taken := s.taken ++ bytes.take n, room? := s.room?.map (· - n) })

theorem interrupts_write_lt {s s' : Sink} {bytes : List UInt8}
    (h : s.write bytes = (.interrupted, s')) : s'.interrupts < s.interrupts := by
  unfold write at h
  split at h
  · cases h; simp only; omega
  · split at h <;> cases h

theorem interrupts_write_took {s s' : Sink} {bytes : List UInt8} {n : Nat}
    (h : s.write bytes = (.took n, s')) : s'.interrupts = s.interrupts := by
  unfold write at h
  split at h
  · cases h
  · split at h <;> cases h; rfl

/-- Writes bytes until all are taken. -/
def writeAll (s : Sink) (bytes : List UInt8) : Except StreamFault Unit × Sink :=
  if bytes = [] then (.ok (), s)
  else
    match h : s.write bytes with
    | (.interrupted, s') => writeAll s' bytes
    | (.refused, s') => (.error fullFault, s')
    | (.took 0, s') => (.error stallFault, s')
    | (.took (n + 1), s') => writeAll s' (bytes.drop (n + 1))
termination_by s.interrupts + bytes.length
decreasing_by
  · have := interrupts_write_lt h
    omega
  · have := interrupts_write_took h
    have := List.length_pos_iff.mpr ‹¬bytes = []›
    simp only [List.length_drop]
    omega

/-- Asks the sink to pass on what it has taken. -/
def flush (s : Sink) : Except StreamFault Unit × Sink :=
  (if s.flushFails then .error flushFault else .ok (), { s with flushes := s.flushes + 1 })

instance : Writable Sink := ⟨writeAll, flush⟩

end Sink

end GlyphRebase
