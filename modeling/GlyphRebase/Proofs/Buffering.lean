import GlyphRebase.Proofs.FinishedPass
import GlyphRebase.Stream.BufferedFile

/-!
# Writing through a buffer

What was written through a buffer without an error is in the file or held for it, all of it and in
order (`BufferedFile.taken`), and after a flush nothing is held. So a pass that comes to its end has
left the whole table in the file (`Reference.Finishes.contents`).

A write fails exactly if the file has no room for what it passes on, and a flush if it has none for
what is held (`BufferedFile.writeAll_eq_error_iff`, `BufferedFile.flush_eq_error_iff`). A write
of less than a buffer passes on nothing as long as there is space for it, whatever room there is in
the file. What each step of a write may come to is said once, by `BufferedFile.PassesOn`. A file
without a limit takes everything (`BufferedFile.Faultless`).
-/

namespace GlyphRebase

namespace OpenFile

variable {f f' : OpenFile} {bytes : List UInt8}

/-- The file can hold so many bytes more. -/
def HasRoom (f : OpenFile) (n : Nat) : Prop :=
  ∀ limit fault, f.limit? = some (limit, fault) → f.written.size + n ≤ limit

theorem hasRoom_of_unlimited (h : f.limit? = none) (n : Nat) : f.HasRoom n := by
  intro limit fault hlimit
  rw [h] at hlimit
  cases hlimit

theorem HasRoom.mono {m n : Nat} (h : f.HasRoom n) (hle : m ≤ n) : f.HasRoom m :=
  fun limit fault hlimit =>
    Nat.le_trans (Nat.add_le_add_left hle _) (h limit fault hlimit)

/-- The file after more bytes. -/
def append (f : OpenFile) (bytes : List UInt8) : OpenFile :=
  { f with written := f.written ++ bytes }

@[simp] theorem toList_append : (f.append bytes).written.toList = f.written.toList ++ bytes := by
  simp [append]

theorem size_append : (f.append bytes).written.size = f.written.size + bytes.length := by
  rw [← Array.length_toList, toList_append, List.length_append, Array.length_toList]

theorem hasRoom_append_iff {n : Nat} :
    (f.append bytes).HasRoom n ↔ f.HasRoom (bytes.length + n) := by
  rw [HasRoom, HasRoom, size_append, Nat.add_assoc]
  rfl

theorem writeAll_of_hasRoom (h : f.HasRoom bytes.length) :
    f.writeAll bytes = (.ok (), f.append bytes) := by
  rw [writeAll]
  cases hlimit : f.limit? with
  | none => rw [append, hlimit]
  | some place =>
    have hroom : bytes.length ≤ place.1 - f.written.size := by
      have := h place.1 place.2 hlimit
      omega
    simp only [if_pos hroom, List.take_of_length_le hroom, append, hlimit]

/-- A file that cannot hold all of the bytes says why. -/
theorem writeAll_of_short (hfits : f.HasRoom 0) (h : ¬f.HasRoom bytes.length) :
    ∃ limit fault f', f.limit? = some (limit, fault) ∧ f.writeAll bytes = (.error fault, f') := by
  obtain ⟨limit, fault, hlimit, hshort⟩ :
      ∃ limit fault, f.limit? = some (limit, fault) ∧ ¬f.written.size + bytes.length ≤ limit := by
    simpa [HasRoom] using h
  have hroom : ¬bytes.length ≤ limit - f.written.size := by
    have := hfits limit fault hlimit
    omega
  rw [writeAll, hlimit]
  simp only [if_neg hroom]
  exact ⟨limit, fault, _, rfl, rfl⟩

theorem writeAll_eq_ok (h : f.writeAll bytes = (.ok (), f')) : f' = f.append bytes := by
  rw [writeAll] at h
  cases hlimit : f.limit? with
  | none =>
    rw [hlimit] at h
    cases h
    rw [append, hlimit]
  | some place =>
    rw [hlimit] at h
    by_cases hroom : bytes.length ≤ place.1 - f.written.size
    · simp only [if_pos hroom, List.take_of_length_le hroom] at h
      cases h
      rw [append, hlimit]
    · simp only [if_neg hroom] at h
      cases h

end OpenFile

namespace BufferedFile

variable {b b' : BufferedFile} {bytes : List UInt8}

/-- The bytes taken so far: those in the file, and those held for it. -/
def taken (b : BufferedFile) : List UInt8 := b.file.written.toList ++ b.held.toList

/-! ### What is written without an error -/

theorem drain_eq_ok (h : b.drain = (.ok (), b')) : b' = ⟨b.file.append b.held.toList, #[]⟩ := by
  rw [drain] at h
  rcases hwrite : b.file.writeAll b.held.toList with ⟨fault | _, file⟩
  · rw [hwrite] at h
    cases h
  · rw [hwrite] at h
    cases h
    rw [OpenFile.writeAll_eq_ok hwrite]

theorem taken_of_drain (h : b.drain = (.ok (), b')) : b'.taken = b.taken := by
  rw [drain_eq_ok h, taken, taken, OpenFile.toList_append]
  exact List.append_nil _

/-- Space is made by passing on all that is held. -/
theorem makeSpace_eq_ok {n : Nat} (h : b.makeSpace n = (.ok (), b')) :
    b'.taken = b.taken ∧ (capacity ≤ n → b'.held = #[]) := by
  rw [makeSpace] at h
  by_cases hfits : b.held.size + n ≤ capacity
  · rw [if_pos hfits] at h
    cases h
    exact ⟨rfl, fun hn => Array.eq_empty_of_size_eq_zero (by omega)⟩
  · rw [if_neg hfits] at h
    refine ⟨taken_of_drain h, fun _ => ?_⟩
    rw [drain_eq_ok h]

/-- What is accepted comes after what was taken before, if it is held, or if nothing else is. -/
theorem taken_of_accept (hheld : capacity ≤ bytes.length → b.held = #[])
    (h : b.accept bytes = (.ok (), b')) : b'.taken = b.taken ++ bytes := by
  rw [accept] at h
  by_cases hlength : bytes.length < capacity
  · rw [if_pos hlength] at h
    cases h
    simp [taken]
  · rw [if_neg hlength] at h
    have hempty := hheld (Nat.not_lt.mp hlength)
    rcases hwrite : b.file.writeAll bytes with ⟨result, file⟩
    rw [hwrite] at h
    cases h
    simp [OpenFile.writeAll_eq_ok hwrite, taken, hempty]

/-- What is written without an error is taken, all of it. -/
theorem taken_of_writeAll (h : b.writeAll bytes = (.ok (), b')) : b'.taken = b.taken ++ bytes := by
  rw [writeAll] at h
  rcases hspace : b.makeSpace bytes.length with ⟨fault | _, b₁⟩
  · rw [hspace] at h
    cases h
  · rw [hspace] at h
    obtain ⟨htaken, hheld⟩ := makeSpace_eq_ok hspace
    rw [taken_of_accept hheld h, htaken]

/-- If nothing is held, closing the file changes nothing. -/
theorem contents_of_held (h : b.held = #[]) : b.contents = b.file.written.toList := by
  have hdrain : b.drain.2.file.written = b.file.written := by
    rw [drain, h, OpenFile.writeAll]
    cases b.file.limit? <;> simp
  rw [contents, hdrain]

/-- After a flush all that was taken is in the file. -/
theorem contents_of_flush (h : b.flush = (.ok (), b')) : b'.contents = b.taken := by
  rw [flush] at h
  rcases hdrain : b.drain with ⟨fault | _, b₁⟩
  · rw [hdrain] at h
    cases h
  · rw [hdrain] at h
    obtain rfl : b₁ = b' := congrArg Prod.snd h
    have hheld : b₁.held = #[] := by rw [drain_eq_ok hdrain]
    rw [contents_of_held hheld, ← taken_of_drain hdrain, taken, hheld]
    exact (List.append_nil _).symm

/-! ### When a write fails -/

/-- How many bytes are passed on to make space for `n` more. -/
def madeFor (b : BufferedFile) (n : Nat) : Nat :=
  if b.held.size + n ≤ capacity then 0 else b.held.size

/-- How many bytes a write of `n` bytes passes on: those held, if it has no space beside them, and
its own, if they fill a buffer. -/
def passedOn (b : BufferedFile) (n : Nat) : Nat :=
  b.madeFor n + if n < capacity then 0 else n

/-- The same file, some writes later: what may go wrong with it is the same, and it holds no more
than it can. -/
structure SameFile (b b' : BufferedFile) : Prop where
  limit : b'.file.limit? = b.file.limit?
  flushFault : b'.file.flushFault? = b.file.flushFault?
  room : b'.file.HasRoom 0

theorem SameFile.trans {b₁ : BufferedFile} (h : b.SameFile b₁) (h₁ : b₁.SameFile b') :
    b.SameFile b' :=
  ⟨h₁.limit.trans h.limit, h₁.flushFault.trans h.flushFault, h₁.room⟩

/-- What comes of passing on `n` bytes: the file has room for them, and for `n` fewer after that, or
it has not and says why. -/
inductive PassesOn (b : BufferedFile) (n : Nat) :
    Except StreamFault Unit × BufferedFile → Prop where
  | done {b' : BufferedFile} (hsame : b.SameFile b')
      (hleft : ∀ m, b'.file.HasRoom m ↔ b.file.HasRoom (n + m)) : PassesOn b n (.ok (), b')
  | short {b' : BufferedFile} {limit : Nat} {fault : StreamFault} (hroom : ¬b.file.HasRoom n)
      (hlimit : b.file.limit? = some (limit, fault)) : PassesOn b n (.error fault, b')

namespace PassesOn

variable {n : Nat} {r : Except StreamFault Unit × BufferedFile} {fault : StreamFault}

/-- Nothing is passed on if what is held alone changes. -/
theorem nothing (hfits : b.file.HasRoom 0) (hfile : b'.file = b.file) :
    b.PassesOn 0 (.ok (), b') := by
  refine .done ⟨by rw [hfile], by rw [hfile], by rwa [hfile]⟩ fun m => ?_
  rw [hfile, Nat.zero_add]

/-- More bytes after `k` bytes for which there was room. -/
theorem after {b₁ : BufferedFile} {k : Nat} (hsame : b.SameFile b₁)
    (hleft : ∀ m, b₁.file.HasRoom m ↔ b.file.HasRoom (k + m)) (h : b₁.PassesOn n r) :
    b.PassesOn (k + n) r := by
  cases h with
  | done hsame₁ hleft₁ =>
    refine .done (hsame.trans hsame₁) fun m => ?_
    rw [hleft₁, hleft, Nat.add_assoc]
  | short hroom hlimit => exact .short (mt (hleft n).mpr hroom) (hsame.limit ▸ hlimit)

theorem exists_ok (h : b.PassesOn n r) (hroom : b.file.HasRoom n) : ∃ b', r = (.ok (), b') := by
  cases h with
  | done => exact ⟨_, rfl⟩
  | short hshort => exact absurd hroom hshort

theorem sameFile (h : b.PassesOn n (.ok (), b')) : b.SameFile b' := by
  cases h with
  | done hsame => exact hsame

theorem eq_error_iff (h : b.PassesOn n r) :
    (∃ b', r = (.error fault, b')) ↔
      ¬b.file.HasRoom n ∧ ∃ limit, b.file.limit? = some (limit, fault) := by
  cases h with
  | done hsame hleft =>
    have hroom : b.file.HasRoom n := (hleft 0).mp hsame.room
    simp [hroom]
  | short hroom hlimit => simp [hroom, hlimit]

end PassesOn

theorem drain_of_hasRoom (h : b.file.HasRoom b.held.size) :
    b.drain = (.ok (), ⟨b.file.append b.held.toList, #[]⟩) := by
  rw [drain, OpenFile.writeAll_of_hasRoom (by rwa [Array.length_toList])]

theorem drain_passesOn (hfits : b.file.HasRoom 0) : b.PassesOn b.held.size b.drain := by
  by_cases hroom : b.file.HasRoom b.held.size
  · have hleft (m : Nat) : (b.file.append b.held.toList).HasRoom m ↔
        b.file.HasRoom (b.held.size + m) := by
      rw [OpenFile.hasRoom_append_iff, Array.length_toList]
    rw [drain_of_hasRoom hroom]
    exact .done ⟨rfl, rfl, (hleft 0).mpr hroom⟩ hleft
  · have hshort : ¬b.file.HasRoom b.held.toList.length := by rwa [Array.length_toList]
    obtain ⟨limit, fault, file, hlimit, hwrite⟩ := OpenFile.writeAll_of_short hfits hshort
    rw [drain, hwrite]
    exact .short hroom hlimit

theorem makeSpace_passesOn (hfits : b.file.HasRoom 0) (n : Nat) :
    b.PassesOn (b.madeFor n) (b.makeSpace n) := by
  rw [madeFor, makeSpace]
  split
  · exact .nothing hfits rfl
  · exact drain_passesOn hfits

theorem accept_passesOn (hfits : b.file.HasRoom 0) (bytes : List UInt8) :
    b.PassesOn (if bytes.length < capacity then 0 else bytes.length) (b.accept bytes) := by
  rw [accept]
  split
  · exact .nothing hfits rfl
  · by_cases hroom : b.file.HasRoom bytes.length
    · rw [OpenFile.writeAll_of_hasRoom hroom]
      exact .done ⟨rfl, rfl, OpenFile.hasRoom_append_iff.mpr hroom⟩
        fun m => OpenFile.hasRoom_append_iff
    · obtain ⟨limit, fault, file, hlimit, hwrite⟩ := OpenFile.writeAll_of_short hfits hroom
      rw [hwrite]
      exact .short hroom hlimit

/-- A write makes space first, and then accepts its bytes. -/
theorem writeAll_passesOn (hfits : b.file.HasRoom 0) (bytes : List UInt8) :
    b.PassesOn (b.passedOn bytes.length) (b.writeAll bytes) := by
  have hspace := makeSpace_passesOn hfits bytes.length
  rw [passedOn, writeAll]
  generalize b.makeSpace bytes.length = made at hspace ⊢
  cases hspace with
  | done hsame hleft => exact (accept_passesOn hsame.room bytes).after hsame hleft
  | short hroom hlimit =>
    exact .short (mt (fun h => h.mono (Nat.le_add_right ..)) hroom) hlimit

/-- **A write fails just if the file has no room for what it passes on**, whatever the bytes of the
write itself are. -/
theorem writeAll_eq_error_iff (hfits : b.file.HasRoom 0) {fault : StreamFault} :
    (∃ b', b.writeAll bytes = (.error fault, b')) ↔
      ¬b.file.HasRoom (b.passedOn bytes.length) ∧ ∃ limit, b.file.limit? = some (limit, fault) :=
  (writeAll_passesOn hfits bytes).eq_error_iff

/-- **A flush fails just if the file has no room for what is held**, or cannot be flushed. -/
theorem flush_eq_error_iff (hfits : b.file.HasRoom 0) {fault : StreamFault} :
    (∃ b', b.flush = (.error fault, b')) ↔
      (¬b.file.HasRoom b.held.size ∧ ∃ limit, b.file.limit? = some (limit, fault)) ∨
        b.file.HasRoom b.held.size ∧ b.file.flushFault? = some fault := by
  have hdrain := drain_passesOn hfits
  rw [flush]
  generalize b.drain = drained at hdrain ⊢
  cases hdrain with
  | done hsame hleft =>
    have hroom : b.file.HasRoom b.held.size := (hleft 0).mp hsame.room
    simp only [OpenFile.flush, hsame.flushFault, hroom]
    cases b.file.flushFault? <;> simp
  | short hroom hlimit => simp [hroom, hlimit]

theorem sameFile_of_writeAll (hfits : b.file.HasRoom 0) (h : b.writeAll bytes = (.ok (), b')) :
    b.SameFile b' := by
  have hpasses := writeAll_passesOn hfits bytes
  rw [h] at hpasses
  exact hpasses.sameFile

/-- Entries that are written without an error do not overfill the file. -/
theorem sameFile_of_writes {entries : List Entry} (hfits : b.file.HasRoom 0)
    (h : Writes b entries b') : b.SameFile b' := by
  induction h with
  | nil => exact ⟨rfl, rfl, hfits⟩
  | cons hfirst _ ih =>
    have hsame := sameFile_of_writeAll hfits hfirst
    exact hsame.trans (ih hsame.room)

end BufferedFile

/-- A file behind a buffer is an output. -/
def Output.ofBufferedFile : Output BufferedFile :=
  ⟨BufferedFile.taken, BufferedFile.writeAll, BufferedFile.flush, BufferedFile.taken_of_writeAll⟩

theorem Output.answers_ofBufferedFile : Output.ofBufferedFile.Answers := ⟨rfl, rfl⟩

/-- A pass that comes to its end has left all entries in the file. -/
theorem Reference.Finishes.contents {rules : Rules} {s : State} {w w' : BufferedFile}
    {texts : List String} (h : Finishes rules s w texts w') :
    w'.contents = w.taken ++ output rules s texts := by
  obtain ⟨-, w₁, hwrites, hflush⟩ := h
  rw [BufferedFile.contents_of_flush hflush, output_eq_flatMap]
  exact Output.answers_ofBufferedFile.taken_of_writes hwrites

namespace BufferedFile

variable {b b' : BufferedFile} {bytes : List UInt8}

/-! ### Files without a limit -/

/-- The file takes everything, and can be flushed. -/
structure Faultless (b : BufferedFile) : Prop where
  limit : b.file.limit? = none
  flush : b.file.flushFault? = none

namespace Faultless

theorem hasRoom (h : b.Faultless) (n : Nat) : b.file.HasRoom n :=
  OpenFile.hasRoom_of_unlimited h.limit n

/-- Everything can be written. -/
theorem writeAll (h : b.Faultless) (bytes : List UInt8) :
    ∃ b', b.writeAll bytes = (.ok (), b') :=
  (writeAll_passesOn (h.hasRoom 0) bytes).exists_ok (h.hasRoom _)

/-- The file goes on to take everything. -/
theorem of_writes (h : b.Faultless) {entries : List Entry} (hw : Writes b entries b') :
    b'.Faultless := by
  have hsame := sameFile_of_writes (h.hasRoom 0) hw
  exact ⟨hsame.limit.trans h.limit, hsame.flushFault.trans h.flush⟩

theorem drain (h : b.Faultless) : b.drain = (.ok (), ⟨b.file.append b.held.toList, #[]⟩) :=
  drain_of_hasRoom (h.hasRoom _)

theorem flush_eq_ok (h : b.Faultless) : ∃ b', b.flush = (.ok (), b') := by
  refine ⟨⟨b.file.append b.held.toList, #[]⟩, ?_⟩
  rw [BufferedFile.flush, h.drain]
  simp only [OpenFile.flush, OpenFile.append, h.flush]

/-- All that was taken is in the file when it is closed. -/
theorem contents (h : b.Faultless) : b.contents = b.taken := by
  rw [BufferedFile.contents, h.drain, taken, OpenFile.toList_append]

end Faultless

end BufferedFile

end GlyphRebase
