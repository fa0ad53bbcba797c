import GlyphRebase.Stream.Sink

/-!
# Writing into a sink

`Sink.writeAll` goes on until everything is taken, so it makes no difference how many bytes a write
takes and how often one is interrupted. Room is all that counts: exactly the front part of the
bytes is taken for which there is room (`Sink.fitting`), and if that is not all, the want of room is
reported (`Sink.writeAll_delivers`). What is written without an error is taken as a whole
(`Sink.taken_of_writeAll`).
-/

namespace GlyphRebase

namespace Sink

/-- A write that took bytes took them from the front. -/
theorem taken_of_write {s s' : Sink} {bytes : List UInt8} {n : Nat}
    (h : s.write bytes = (.took n, s')) : s'.taken.toList = s.taken.toList ++ bytes.take n := by
  unfold write at h
  split at h
  · cases h
  · split at h
    · cases h
    · cases h
      simp

theorem taken_of_interrupted {s s' : Sink} {bytes : List UInt8}
    (h : s.write bytes = (.interrupted, s')) : s'.taken = s.taken := by
  unfold write at h
  split at h
  · cases h
    rfl
  · split at h <;> cases h

/-- What is written without an error is taken, all of it. -/
theorem taken_of_writeAll {s s' : Sink} {bytes : List UInt8}
    (h : s.writeAll bytes = (.ok (), s')) : s'.taken.toList = s.taken.toList ++ bytes := by
  fun_induction Sink.writeAll s bytes with
  | case1 s =>
    cases h
    simp
  | case2 s bytes hne s₁ hw ih => rw [ih h, taken_of_interrupted hw]
  | case3 | case4 => cases h
  | case5 s bytes hne n s₁ hw ih =>
    rw [ih h, taken_of_write hw, List.append_assoc, List.take_append_drop]

/-! ### Room -/

/-- There is room for so many bytes. -/
def HasRoom (s : Sink) (n : Nat) : Prop := ∀ room, s.room? = some room → n ≤ room

theorem hasRoom_zero (s : Sink) : s.HasRoom 0 := fun _ _ => Nat.zero_le _

theorem hasRoom_of_room {s : Sink} (h : s.room? = none) (n : Nat) : s.HasRoom n := by
  intro room hroom
  rw [h] at hroom
  cases hroom

theorem HasRoom.mono {s : Sink} {m n : Nat} (h : s.HasRoom n) (hle : m ≤ n) : s.HasRoom m :=
  fun room hroom => Nat.le_trans hle (h room hroom)

/-- The front part of some bytes for which there is room. -/
def fitting (s : Sink) (bytes : List UInt8) : List UInt8 :=
  match s.room? with
  | none => bytes
  | some room => bytes.take room

theorem fitting_of_room {s : Sink} {room : Nat} (h : s.room? = some room) (bytes : List UInt8) :
    s.fitting bytes = bytes.take room := by
  unfold fitting
  rw [h]

theorem fitting_nil (s : Sink) : s.fitting [] = [] := by
  unfold fitting
  split <;> simp

theorem fitting_of_hasRoom {s : Sink} {bytes : List UInt8} (h : s.HasRoom bytes.length) :
    s.fitting bytes = bytes := by
  unfold fitting
  split
  · rfl
  · next room hroom => exact List.take_of_length_le (h room hroom)

/-- What follows bytes for which there is no room does not fit either. -/
theorem fitting_append_of_short {s : Sink} {a : List UInt8} (h : ¬s.HasRoom a.length)
    (b : List UInt8) : s.fitting (a ++ b) = s.fitting a := by
  obtain ⟨room, hroom, hlt⟩ : ∃ room, s.room? = some room ∧ ¬a.length ≤ room := by
    simpa [HasRoom] using h
  rw [fitting_of_room hroom, fitting_of_room hroom, List.take_append_of_le_length (by omega)]

/-! ### What becomes of a sink -/

/-- What the sink reports when its room is used up. -/
def shortage (s : Sink) : StreamFault := if s.stallsWhenFull then stallFault else fullFault

theorem shortage_kind (s : Sink) :
    s.shortage.kind = if s.stallsWhenFull then .writeZero else .other := by
  unfold shortage
  split <;> rfl

/-- The sink has become the other by taking bytes. How often it is interrupted from now on is left
open. -/
structure Took (s : Sink) (bytes : List UInt8) (s' : Sink) : Prop where
  taken : s'.taken.toList = s.taken.toList ++ bytes
  room : s'.room? = s.room?.map (· - bytes.length)
  portion : s'.portion? = s.portion?
  stalls : s'.stallsWhenFull = s.stallsWhenFull
  flushFails : s'.flushFails = s.flushFails
  flushes : s'.flushes = s.flushes

namespace Took

variable {s s' s'' : Sink} {a b : List UInt8}

theorem nil (s : Sink) : s.Took [] s :=
  ⟨(List.append_nil _).symm, by simp, rfl, rfl, rfl, rfl⟩

theorem trans (h : s.Took a s') (h' : s'.Took b s'') : s.Took (a ++ b) s'' where
  taken := by rw [h'.taken, h.taken, List.append_assoc]
  room := by
    rw [h'.room, h.room, Option.map_map, List.length_append]
    exact congrArg (s.room?.map ·) (funext fun n => Nat.sub_sub n _ _)
  portion := h'.portion.trans h.portion
  stalls := h'.stalls.trans h.stalls
  flushFails := h'.flushFails.trans h.flushFails
  flushes := h'.flushes.trans h.flushes

theorem shortage (h : s.Took a s') : s'.shortage = s.shortage := by
  rw [Sink.shortage, Sink.shortage, h.stalls]

/-- What was taken used up its part of the room. -/
theorem hasRoom_iff (h : s.Took a s') (ha : s.HasRoom a.length) {n : Nat} :
    s'.HasRoom n ↔ s.HasRoom (a.length + n) := by
  unfold HasRoom at *
  rw [h.room]
  cases hroom : s.room? with
  | none => simp
  | some room =>
    have := ha room hroom
    simp only [Option.map_some, Option.some.injEq, forall_eq']
    omega

theorem fitting_append (h : s.Took a s') (ha : s.HasRoom a.length) (b : List UInt8) :
    s.fitting (a ++ b) = a ++ s'.fitting b := by
  have hroom' := h.room
  cases hroom : s.room? with
  | none =>
    rw [hroom] at hroom'
    simp only [fitting, hroom, hroom', Option.map_none]
  | some room =>
    rw [hroom, Option.map_some] at hroom'
    rw [fitting_of_room hroom, fitting_of_room hroom', List.take_append,
      List.take_of_length_le (ha room hroom)]

end Took

/-! ### Writing, one write at a time -/

section
variable {s : Sink} {bytes : List UInt8}

theorem fits_le (n : Nat) : s.fits n ≤ n :=
  Nat.le_trans (Nat.min_le_right ..) (Nat.min_le_right ..)

theorem hasRoom_fits (n : Nat) : s.HasRoom (s.fits n) := by
  intro room hroom
  rw [fits, hroom]
  exact Nat.min_le_left ..

/-- A write that is not interrupted takes nothing only for want of room. -/
theorem room_of_fits_eq_zero (hp : s.portion? ≠ some 0) {n : Nat} (hn : 0 < n)
    (h : s.fits n = 0) : s.room? = some 0 := by
  have hportion : 0 < min (s.portion?.getD n) n := by
    cases hk : s.portion? with
    | none => simpa using hn
    | some k =>
      have hne : k ≠ 0 := fun e => hp (by rw [hk, e])
      rw [Option.getD_some]
      omega
  unfold fits at h
  cases hroom : s.room? with
  | none =>
    rw [hroom, Option.getD_none] at h
    omega
  | some room =>
    rw [hroom, Option.getD_some] at h
    exact congrArg some (by omega)

/-- A write is interrupted; or it takes nothing, for want of room; or it takes some of the bytes
from the front, for which there is room. -/
theorem write_cases (hp : s.portion? ≠ some 0) (hne : bytes ≠ []) :
    (∃ s', s.write bytes = (.interrupted, s') ∧ s.Took [] s') ∨
      (s.room? = some 0 ∧ s.shortage = fullFault ∧ s.write bytes = (.refused, s)) ∨
      (∃ s', s.room? = some 0 ∧ s.shortage = stallFault ∧ s.write bytes = (.took 0, s') ∧
        s.Took [] s') ∨
      ∃ n s', n + 1 ≤ bytes.length ∧ s.HasRoom (n + 1) ∧ s.write bytes = (.took (n + 1), s') ∧
        s.Took (bytes.take (n + 1)) s' := by
  unfold write
  split
  · exact .inl ⟨_, rfl, by simp, by simp, rfl, rfl, rfl, rfl⟩
  · have hpos := List.length_pos_iff.mpr hne
    split
    · next hfull =>
      obtain ⟨hroom, hstalls⟩ := hfull
      exact .inr (.inl ⟨hroom, if_neg (by simpa using hstalls), rfl⟩)
    · next hfull =>
      have htook : s.Took (bytes.take (s.fits bytes.length))
          { s with taken := s.taken ++ bytes.take (s.fits bytes.length),
                   room? := s.room?.map (· - s.fits bytes.length) } := by
        refine ⟨by simp, ?_, rfl, rfl, rfl, rfl⟩
        rw [List.length_take, Nat.min_eq_left (by unfold fits; omega)]
      cases hfits : s.fits bytes.length with
      | zero =>
        have hroom := room_of_fits_eq_zero hp hpos hfits
        have hstalls : s.stallsWhenFull = true := by
          cases hs : s.stallsWhenFull with
          | true => rfl
          | false => exact absurd ⟨hroom, by rw [hs]; rfl⟩ hfull
        rw [hfits, List.take_zero] at htook
        exact .inr (.inr (.inl ⟨_, hroom, if_pos hstalls, rfl, htook⟩))
      | succ n =>
        have hle := s.fits_le bytes.length
        have hroom := s.hasRoom_fits bytes.length
        rw [hfits] at htook hle hroom
        exact .inr (.inr (.inr ⟨n, _, hle, hroom, rfl, htook⟩))

/-- What writing some bytes comes to: those for which there is room are taken, and if these are not
all, the want of room is reported. -/
def Delivers (s : Sink) (bytes : List UInt8) (w : Except StreamFault Unit × Sink) : Prop :=
  s.Took (s.fitting bytes) w.2 ∧
    (s.HasRoom bytes.length ∧ w.1 = .ok () ∨ ¬s.HasRoom bytes.length ∧ w.1 = .error s.shortage)

/-- Bytes may be taken in two parts. -/
theorem Took.delivers {s₁ : Sink} {a b : List UInt8} {w : Except StreamFault Unit × Sink}
    (h : s.Took a s₁) (ha : s.HasRoom a.length) (hw : s₁.Delivers b w) :
    s.Delivers (a ++ b) w := by
  obtain ⟨htook, hresult⟩ := hw
  refine ⟨?_, ?_⟩
  · rw [h.fitting_append ha]
    exact h.trans htook
  · rwa [List.length_append, ← h.hasRoom_iff ha, ← h.shortage]

/-- A sink without room delivers nothing. -/
theorem Took.delivers_of_full {s₁ : Sink} (h : s.Took [] s₁) (hroom : s.room? = some 0)
    (hne : bytes ≠ []) : s.Delivers bytes (.error s.shortage, s₁) := by
  have hpos := List.length_pos_iff.mpr hne
  refine ⟨?_, .inr ⟨fun hr => ?_, rfl⟩⟩
  · rwa [fitting_of_room hroom, List.take_zero]
  · have := hr 0 hroom
    omega

/-- **Writing until everything is taken** delivers what there is room for, whatever the portions and
interruptions. -/
theorem writeAll_delivers (hp : s.portion? ≠ some 0) (bytes : List UInt8) :
    s.Delivers bytes (s.writeAll bytes) := by
  fun_induction Sink.writeAll s bytes with
  | case1 s =>
    refine ⟨?_, .inl ⟨s.hasRoom_zero, rfl⟩⟩
    rw [fitting_nil]
    exact .nil s
  | case2 s bytes hne s₁ hw ih =>
    rcases write_cases hp hne with ⟨_, hk, htook⟩ | ⟨-, -, hk⟩ | ⟨_, -, -, hk, -⟩ |
      ⟨_, _, -, -, hk, -⟩ <;> rw [hw] at hk <;> cases hk
    exact htook.delivers s.hasRoom_zero (ih (htook.portion ▸ hp))
  | case3 s bytes hne s₁ hw =>
    rcases write_cases hp hne with ⟨_, hk, -⟩ | ⟨hroom, hfault, hk⟩ | ⟨_, -, -, hk, -⟩ |
      ⟨_, _, -, -, hk, -⟩ <;> rw [hw] at hk <;> cases hk
    rw [← hfault]
    exact (Took.nil s).delivers_of_full hroom hne
  | case4 s bytes hne s₁ hw =>
    rcases write_cases hp hne with ⟨_, hk, -⟩ | ⟨-, -, hk⟩ | ⟨_, hroom, hfault, hk, htook⟩ |
      ⟨_, _, -, -, hk, -⟩ <;> rw [hw] at hk <;> cases hk
    rw [← hfault]
    exact htook.delivers_of_full hroom hne
  | case5 s bytes hne n s₁ hw ih =>
    rcases write_cases hp hne with ⟨_, hk, -⟩ | ⟨-, -, hk⟩ | ⟨_, -, -, hk, -⟩ |
      ⟨_, _, hle, hroom, hk, htook⟩ <;> rw [hw] at hk <;> cases hk
    have hlen : (bytes.take (n + 1)).length = n + 1 := by
      rw [List.length_take, Nat.min_eq_left hle]
    have := htook.delivers (hlen.symm ▸ hroom) (ih (htook.portion ▸ hp))
    rwa [List.take_append_drop] at this

end

/-! ### Sinks that differ in portions and interruptions -/

/-- The sinks have taken the same, and have the same room and the same faults, but for portions and
interruptions. -/
structure Alike (s t : Sink) : Prop where
  taken : t.taken = s.taken
  room : t.room? = s.room?
  stalls : t.stallsWhenFull = s.stallsWhenFull
  flushFails : t.flushFails = s.flushFails
  flushes : t.flushes = s.flushes
  productive : s.portion? ≠ some 0 ∧ t.portion? ≠ some 0

/-- They take the same bytes, and report the same. -/
theorem Alike.writeAll {s t : Sink} (h : s.Alike t) (bytes : List UInt8) :
    (t.writeAll bytes).1 = (s.writeAll bytes).1 ∧
      (s.writeAll bytes).2.Alike (t.writeAll bytes).2 := by
  obtain ⟨hs, hsresult⟩ := s.writeAll_delivers h.productive.1 bytes
  obtain ⟨ht, htresult⟩ := t.writeAll_delivers h.productive.2 bytes
  have hroom : t.HasRoom bytes.length ↔ s.HasRoom bytes.length := by rw [HasRoom, HasRoom, h.room]
  have hfitting : t.fitting bytes = s.fitting bytes := by rw [fitting, fitting, h.room]
  have hshortage : t.shortage = s.shortage := by rw [shortage, shortage, h.stalls]
  rw [hfitting] at ht
  rw [hroom, hshortage] at htresult
  constructor
  · rcases hsresult with ⟨hr, hs⟩ | ⟨hr, hs⟩ <;> rcases htresult with ⟨hr', ht⟩ | ⟨hr', ht⟩
    · rw [hs, ht]
    · exact absurd hr hr'
    · exact absurd hr' hr
    · rw [hs, ht]
  · exact {
      taken := Array.toList_inj.mp (by rw [ht.taken, hs.taken, h.taken])
      room := by rw [ht.room, hs.room, h.room]
      stalls := by rw [ht.stalls, hs.stalls, h.stalls]
      flushFails := by rw [ht.flushFails, hs.flushFails, h.flushFails]
      flushes := by rw [ht.flushes, hs.flushes, h.flushes]
      productive := ⟨hs.portion ▸ h.productive.1, ht.portion ▸ h.productive.2⟩ }

/-- They are flushed alike. -/
theorem Alike.flush {s t : Sink} (h : s.Alike t) :
    t.flush.1 = s.flush.1 ∧ s.flush.2.Alike t.flush.2 :=
  ⟨by rw [Sink.flush, Sink.flush, h.flushFails],
    { h with flushes := congrArg (· + 1) h.flushes }⟩

end Sink

end GlyphRebase
