import GlyphRebase.Stream.Source
import GlyphRebase.Text.Utf8

/-!
# Lines of a source

A line ends at a line feed, at a carriage return, or at both in this order. `Source.next` reads one
line. It takes portions until one decides where the line ends: a carriage return at the very end of
a portion is held back, for the next byte may belong to it. What follows the end of the line stays
ready, so the source stands exactly after the terminator.

At the end of the input a line without a terminator counts if it is not empty. A failure of the
source gives up the line that was being read.
-/

namespace GlyphRebase

/-- The line feed. -/
def lineFeed : UInt8 := 0x0A

/-- The carriage return. -/
def carriageReturn : UInt8 := 0x0D

/-- Does the byte end a line? -/
def endsLine (b : UInt8) : Bool := b == lineFeed || b == carriageReturn

/-- A line that is no text, as a fault of the stream. -/
def Utf8.Fault.toStreamFault (f : Utf8.Fault) : StreamFault := ⟨.invalidData, f.message⟩

namespace Source

/-- What a portion does to the line being read. -/
inductive Cut where
  /-- The line is complete, and takes so many bytes of the portion. -/
  | line (bytes : List UInt8) (used : Nat)
  /-- The whole portion belongs to the line, which goes on. -/
  | more (held : List UInt8)
  deriving DecidableEq, Repr

/-- Looks for the end of the line in a portion, after the bytes held so far. -/
def cut (held portion : List UInt8) : Cut :=
  if held.getLast? = some carriageReturn then
    .line held.dropLast (if portion.head? = some lineFeed then 1 else 0)
  else
    let text := portion.takeWhile (!endsLine ·)
    match portion.dropWhile (!endsLine ·) with
    | [] => .more (held ++ portion)
    | [b] =>
      if b = lineFeed then .line (held ++ text) (text.length + 1) else .more (held ++ portion)
    | b :: c :: _ =>
      .line (held ++ text) (text.length + if b = carriageReturn ∧ c = lineFeed then 2 else 1)

/-- What reading for a line comes to. -/
inductive Pulled where
  /-- A line, without its terminator. -/
  | line (bytes : List UInt8)
  /-- There are no more lines for now. -/
  | finished
  /-- The source failed. -/
  | failed (fault : StreamFault)
  deriving DecidableEq, Repr

/-- What the bytes held come to when the input ends. -/
def close (held : List UInt8) : Pulled :=
  if held.getLast? = some carriageReturn then .line held.dropLast
  else if held.isEmpty then .finished
  else .line held

/-- Reads on for a line of which some bytes are held. -/
def pullFrom (held : List UInt8) : List Delivery → Pulled × Source
  | [] => (close held, ⟨[], []⟩)
  | .failure fault :: script => (.failed fault, ⟨[], script⟩)
  | .chunk portion :: script =>
    if portion.isEmpty then (close held, ⟨[], script⟩)
    else
      match cut held portion with
      | .line bytes used => (.line bytes, ⟨portion.drop used, script⟩)
      | .more held => pullFrom held script

/-- Reads one line. -/
def pull (s : Source) : Pulled × Source := pullFrom [] s.deliveries

/-- Reads one line as text; `none` if there are no more lines for now. -/
def next (s : Source) : Option (Except StreamFault String) × Source :=
  match s.pull with
  | (.line bytes, s) => (some ((Utf8.decode bytes).mapError (·.toStreamFault)), s)
  | (.finished, s) => (none, s)
  | (.failed fault, s) => (some (.error fault), s)

/-! ### What reading uses up -/

/-- A source that has bytes ready holds no more than the same source that is about to deliver
them. -/
theorem size_mk (ready : List UInt8) (script : List Delivery) :
    (Source.mk ready script).size ≤ ready.length + 1 + Delivery.total script := by
  unfold size deliveries
  split
  · show Delivery.total script ≤ ready.length + 1 + Delivery.total script
    omega
  · simp only [Delivery.total, Delivery.size]
    omega

theorem size_mk_nil (script : List Delivery) :
    (Source.mk [] script).size = Delivery.total script := by
  simp [size, deliveries]

/-- Reading for a line gives nothing back to the source. -/
theorem size_pullFrom_le (held : List UInt8) (script : List Delivery) :
    (pullFrom held script).2.size ≤ Delivery.total script := by
  fun_induction pullFrom held script with
  | case1 held => simp [size_mk_nil]
  | case2 held fault script => simp [size_mk_nil, Delivery.total]
  | case3 held portion script h => simp [size_mk_nil, Delivery.total]
  | case4 held portion script _ bytes used _ =>
    have := size_mk (portion.drop used) script
    simp only [Delivery.total, Delivery.size, List.length_drop] at *
    omega
  | case5 held portion script _ more _ ih =>
    simp only [Delivery.total]
    omega

/-- A line of which nothing is held takes at least one byte of the portion that completes it. -/
theorem used_pos_of_cut_nil {portion bytes : List UInt8} {used : Nat}
    (h : cut [] portion = .line bytes used) : 0 < used := by
  unfold cut at h
  simp only [List.getLast?_nil, reduceCtorEq, ↓reduceIte, List.nil_append] at h
  split at h
  · cases h
  · split at h
    · simp only [Cut.line.injEq] at h; omega
    · cases h
  · simp only [Cut.line.injEq] at h
    split at h <;> omega

/-- A line, or a failure, uses up something of the script. -/
theorem size_pullFrom_nil_lt {script : List Delivery} (h : (pullFrom [] script).1 ≠ .finished) :
    (pullFrom [] script).2.size < Delivery.total script := by
  cases script with
  | nil => simp [pullFrom, close] at h
  | cons d script =>
    cases d with
    | failure fault => simp [pullFrom, size_mk_nil, Delivery.total, Delivery.size]
    | chunk portion =>
      rw [pullFrom] at h ⊢
      split
      · simp [size_mk_nil, Delivery.total, Delivery.size]
      · next hne =>
        have : portion.length ≠ 0 := by simpa using hne
        split
        · next bytes used hcut =>
          have hpos := used_pos_of_cut_nil hcut
          have := size_mk (portion.drop used) script
          simp only [Delivery.total, Delivery.size, List.length_drop] at *
          omega
        · next more _ =>
          have := size_pullFrom_le more script
          simp only [Delivery.total, Delivery.size]
          omega

/-- A line, or a failure, uses up something of the source. -/
theorem size_pull_lt {s : Source} (h : s.pull.1 ≠ .finished) : s.pull.2.size < s.size :=
  size_pullFrom_nil_lt h

/-- After a line or a fault there is less to come than before. -/
theorem size_next_lt {s s' : Source} {item : Except StreamFault String}
    (h : s.next = (some item, s')) : s'.size < s.size := by
  have hlt := @size_pull_lt s
  unfold next at h
  generalize s.pull = p at *
  rcases p with ⟨_ | _ | _, t⟩ <;> simp_all

/-! ### Reading on -/

/-- The lines, and the faults between them, up to the first end of the input. -/
def lines (s : Source) : List (Except StreamFault String) :=
  match _h : s.next with
  | (some item, rest) => item :: lines rest
  | (none, _) => []
termination_by s.size
decreasing_by exact size_next_lt _h

/-- What `n` attempts to read a line give, beyond the end of the input as well. -/
def attempts : Nat → Source → List (Option (Except StreamFault String))
  | 0, _ => []
  | n + 1, s =>
    match s.next with
    | (item, rest) => item :: attempts n rest

end Source

end GlyphRebase
