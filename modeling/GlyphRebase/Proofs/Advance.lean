import GlyphRebase.State
import Mathlib.Data.List.Basic

/-!
# What a line does, in exact integers

`State.advance` computes in 64 bits. Here its steps are told over the integers: which indices the
rules can move (`Rules.Moves`), where an index ends up (`Rules.moved`), and which indices overflow
(`Rules.Overflows`). A line that holds an entry with such an index is rebased, whatever state it
meets (`Rules.Rebases`); every other line leaves the state as it is. `State.advance_cases` says so,
and `State.Follows` says all that an entry changes. No difference on the way leaves the 64 bits, so
every step is the exact one (`State.advance_is_exact`).
-/

namespace GlyphRebase

/-! ### Differences that fit -/

section
variable {index offset d : Int64}

theorem shift?_eq_some_iff :
    shift? index offset = some d ↔ d.toInt = index.toInt - offset.toInt := by
  unfold shift?
  simp only [Int64.toInt_minValue, Int64.toInt_maxValue]
  have hlo := d.le_toInt
  have hhi := d.toInt_lt
  split
  · rw [Option.some.injEq, ← Int64.toInt_inj, Int64.toInt_ofInt_of_le (by omega) (by omega),
      eq_comm]
  · simp only [reduceCtorEq, false_iff]
    omega

theorem shift?_eq_none_iff :
    shift? index offset = none ↔ ¬(Int64.minValue.toInt ≤ index.toInt - offset.toInt ∧
      index.toInt - offset.toInt ≤ Int64.maxValue.toInt) := by
  simp only [shift?, ite_eq_right_iff, reduceCtorEq, imp_false]

end

/-! ### Indices as they are read -/

namespace Number

/-- Digits are read no further than the limit. -/
theorem accumulate_le {base limit n m : Nat} {beyond : Fault} {cs : List Char} (hn : n ≤ limit)
    (h : accumulate base limit beyond n cs = .ok m) : m ≤ limit := by
  fun_induction accumulate base limit beyond n cs with
  | case1 n =>
    cases h
    exact hn
  | case2 | case3 => cases h
  | case4 n c cs d hd hle ih => exact ih (Nat.not_lt.mp hle) h

/-- Digits without a sign are no negative number. -/
theorem readMagnitude_nonneg {base : Nat} {cs : List Char} {i : Int64}
    (h : readMagnitude base cs = .ok i) : 0 ≤ i.toInt := by
  unfold readMagnitude at h
  split at h
  · cases h
  · rcases hacc : accumulate base Int64.maxValue.toInt.toNat .tooLarge 0 cs with _ | n
    · rw [hacc] at h
      cases h
    · rw [hacc] at h
      cases h
      have hle := accumulate_le (Nat.zero_le _) hacc
      rw [Int64.toInt_maxValue] at hle
      rw [Int64.toInt_ofInt_of_le (by omega) (by omega)]
      omega

end Number

/-- The index of an entry as a line holds it is not negative. -/
theorem Entry.index_nonneg {line : String} {e : Entry} (h : ofLine? line = some e) :
    0 ≤ e.index.toInt := by
  unfold ofLine? scan at h
  obtain ⟨index, hindex, h⟩ := Option.bind_eq_some_iff.mp h
  -- what comes after the index only decides whether there is an entry
  iterate 7 obtain ⟨_, -, h⟩ := Option.bind_eq_some_iff.mp h
  cases h
  cases hread : Number.readMagnitude 10
      ((Text.skipBlanks line.toList).takeWhile Number.isDecimal) with
  | error => rw [hread] at hindex; cases hindex
  | ok i =>
    rw [hread] at hindex
    cases hindex
    exact Number.readMagnitude_nonneg hread

/-! ### What the rules do to an index -/

namespace Rules

/-- The rules can move the index: it is special and stays, or the difference fits into 64 bits. -/
def Moves (r : Rules) (i : Int64) : Prop :=
  i = r.special ∨ (Int64.minValue.toInt ≤ i.toInt - r.offset.toInt ∧
    i.toInt - r.offset.toInt ≤ Int64.maxValue.toInt)

/-- The index overflows: it is not special, and moved it is not below the boundary. -/
def Overflows (r : Rules) (i : Int64) : Prop :=
  i ≠ r.special ∧ r.boundary.toInt ≤ i.toInt - r.offset.toInt

/-- Where an index ends up. -/
def moved (r : Rules) (i : Int64) : Int :=
  if i = r.special then i.toInt
  else if i.toInt - r.offset.toInt < r.boundary.toInt then i.toInt - r.offset.toInt
  else i.toInt - r.offset.toInt - r.boundary.toInt

/-- The line holds the entry, and is rebased in whatever state it is met. -/
def Rebases (r : Rules) (line : String) (e : Entry) : Prop :=
  Entry.ofLine? line = some e ∧ ∀ s : State, (s.advance line r).2 = .remapped

/-- The line is rebased and its index overflows. -/
def OverflowsAt (r : Rules) (line : String) (e : Entry) : Prop :=
  r.Rebases line e ∧ r.Overflows e.index

theorem fault?_eq_none_iff {r : Rules} : r.fault? = none ↔ 0 < r.boundary.toInt := by
  rw [fault?, ite_eq_right_iff, Int64.le_iff_toInt_le, Int64.toInt_zero]
  simp

section
variable {r : Rules} {i : Int64}

theorem moved_of_special (h : i = r.special) : r.moved i = i.toInt := if_pos h

theorem moved_of_overflows (h : r.Overflows i) :
    r.moved i = i.toInt - r.offset.toInt - r.boundary.toInt := by
  rw [moved, if_neg h.1, if_neg (by have := h.2; omega)]

theorem moved_of_below (hi : i ≠ r.special)
    (h : i.toInt - r.offset.toInt < r.boundary.toInt) :
    r.moved i = i.toInt - r.offset.toInt := by
  rw [moved, if_neg hi, if_pos h]

/-- Of the indices that are not negative, those end up below zero that are not special and lie
below the offset. -/
theorem moved_neg_iff (hr : r.fault? = none) (hi : 0 ≤ i.toInt) :
    r.moved i < 0 ↔ i ≠ r.special ∧ i.toInt < r.offset.toInt := by
  have hb := fault?_eq_none_iff.mp hr
  by_cases hspecial : i = r.special
  · rw [moved_of_special hspecial]
    exact ⟨fun h => absurd hi (by omega), fun h => absurd hspecial h.1⟩
  · by_cases hbelow : i.toInt - r.offset.toInt < r.boundary.toInt
    · rw [moved_of_below hspecial hbelow]
      simp only [hspecial, ne_eq, not_false_eq_true, true_and]
      omega
    · have hover : r.Overflows i := ⟨hspecial, by omega⟩
      rw [moved_of_overflows hover]
      simp only [hspecial, ne_eq, not_false_eq_true, true_and]
      omega

end

end Rules

/-! ### What an entry does to the state -/

namespace State

/-- What an entry that the rules can move makes of a state. -/
structure Follows (r : Rules) (s : State) (e : Entry) (next : State) : Prop where
  /-- The index is where the rules move it. -/
  index : r.fault? = none → next.index.toInt = r.moved e.index
  /-- The code is kept as it is. -/
  code : next.code = e.code
  /-- An index has overflowed if one had, or if this one does. -/
  overflowed : next.overflowed = true ↔ s.overflowed = true ∨ r.Overflows e.index
  /-- The code of an overflow is taken down if it is the first. -/
  overflowCode : next.overflowCode = s.overflowCode ∧ (s.overflowed = true ∨ ¬r.Overflows e.index) ∨
    next.overflowCode = e.code ∧ s.overflowed = false ∧ r.Overflows e.index

variable (s : State) (e : Entry) (r : Rules)

/-- An entry is recorded where it is, cannot be moved, is recorded where it is moved to, or
wraps. -/
theorem take?_cases :
    (e.index = r.special ∧ s.take? e r = some (s.record e.index e.code)) ∨
      (¬r.Moves e.index ∧ s.take? e r = none) ∨
      ∃ d, d.toInt = e.index.toInt - r.offset.toInt ∧ e.index ≠ r.special ∧
        ((d < r.boundary ∧ s.take? e r = some (s.record d e.code)) ∨
          (r.boundary ≤ d ∧ s.take? e r = some (s.wrap d e.code r))) := by
  unfold take?
  by_cases hspecial : e.index = r.special
  · exact .inl ⟨hspecial, if_pos hspecial⟩
  · rw [if_neg hspecial]
    cases hshift : shift? e.index r.offset with
    | none =>
      have hfit := shift?_eq_none_iff.mp hshift
      exact .inr (.inl ⟨fun h => h.elim hspecial hfit, rfl⟩)
    | some d =>
      refine .inr (.inr ⟨d, shift?_eq_some_iff.mp hshift, hspecial, ?_⟩)
      by_cases hd : r.boundary ≤ d
      · exact .inr ⟨hd, by rw [Option.map_some, if_pos hd]⟩
      · exact .inl ⟨Int64.not_le.mp hd, by rw [Option.map_some, if_neg hd]⟩

variable {s e r}

theorem take?_eq_none_iff : s.take? e r = none ↔ ¬r.Moves e.index := by
  obtain ⟨hspecial, htake⟩ | ⟨hmoves, htake⟩ | ⟨d, hd, hspecial, ⟨-, htake⟩ | ⟨-, htake⟩⟩ :=
    s.take?_cases e r
  · simp [htake, Rules.Moves, hspecial]
  · simp [htake, hmoves]
  all_goals
    have hmoves : r.Moves e.index := .inr (hd ▸ ⟨d.minValue_le_toInt, d.toInt_le⟩)
    simp [htake, hmoves]

theorem follows_of_take? {next : State} (h : s.take? e r = some next) : s.Follows r e next := by
  obtain ⟨hspecial, htake⟩ | ⟨-, htake⟩ | ⟨d, hd, hspecial, ⟨hlt, htake⟩ | ⟨hle, htake⟩⟩ :=
    s.take?_cases e r
  · rw [h] at htake
    cases htake
    have hover : ¬r.Overflows e.index := fun ho => ho.1 hspecial
    exact ⟨fun _ => (Rules.moved_of_special hspecial).symm, rfl, by simp [record, hover],
      .inl ⟨rfl, .inr hover⟩⟩
  · rw [h] at htake
    cases htake
  · rw [h] at htake
    cases htake
    rw [Int64.lt_iff_toInt_lt, hd] at hlt
    have hover : ¬r.Overflows e.index := fun ho => by have := ho.2; omega
    exact ⟨fun _ => hd.trans (Rules.moved_of_below hspecial hlt).symm, rfl,
      by simp [record, hover], .inl ⟨rfl, .inr hover⟩⟩
  · rw [h] at htake
    cases htake
    have hover : r.Overflows e.index := ⟨hspecial, by rw [← hd]; exact Int64.le_iff_toInt_le.mp hle⟩
    refine ⟨fun hr => ?_, rfl, by simp [wrap, hover], ?_⟩
    · have hb := Rules.fault?_eq_none_iff.mp hr
      rw [Rules.moved_of_overflows hover, ← hd]
      exact Int64.toInt_sub_of_le d r.boundary
        (Int64.le_iff_toInt_le.mpr (by rw [Int64.toInt_zero]; omega)) hle
    · cases hs : s.overflowed with
      | true => exact .inl ⟨by simp [wrap, hs], .inl rfl⟩
      | false => exact .inr ⟨by simp [wrap, hs], rfl, hover⟩

end State

/-! ### What a line does to the state -/

section
variable {r : Rules} {line : String} {e : Entry}

theorem State.advance_of_none (s : State) (h : Entry.ofLine? line = none) :
    s.advance line r = (s, .passedOver) := by
  rw [advance, h]
  rfl

theorem State.advance_of_some (s : State) (h : Entry.ofLine? line = some e) :
    s.advance line r =
      match s.take? e r with
      | some next => (next, .remapped)
      | none => (s, .passedOver) := by
  rw [advance, h]
  rfl

theorem Rules.rebases_iff : r.Rebases line e ↔ Entry.ofLine? line = some e ∧ r.Moves e.index := by
  refine and_congr_right fun hline => ?_
  constructor
  · intro h
    by_contra hmoves
    have := h .initial
    rw [State.advance_of_some _ hline, State.take?_eq_none_iff.mpr hmoves] at this
    cases this
  · intro hmoves s
    rw [State.advance_of_some _ hline]
    cases htake : s.take? e r with
    | none => exact absurd hmoves (State.take?_eq_none_iff.mp htake)
    | some next => rfl

/-- **One line.** It is passed over and changes nothing, and then no entry in it can be rebased;
or it is rebased, and the state follows its entry. -/
theorem State.advance_cases (s : State) (line : String) (r : Rules) :
    (s.advance line r = (s, .passedOver) ∧ ∀ e, ¬r.Rebases line e) ∨
      ∃ e next, s.advance line r = (next, .remapped) ∧ r.Rebases line e ∧ s.Follows r e next := by
  cases hline : Entry.ofLine? line with
  | none =>
    refine .inl ⟨s.advance_of_none hline, fun e he => ?_⟩
    rw [he.1] at hline
    cases hline
  | some e =>
    cases htake : s.take? e r with
    | none =>
      refine .inl ⟨by rw [s.advance_of_some hline, htake], fun e' he => ?_⟩
      obtain ⟨he', hmoves⟩ := Rules.rebases_iff.mp he
      rw [hline] at he'
      cases he'
      exact State.take?_eq_none_iff.mp htake hmoves
    | some next =>
      have hmoves : r.Moves e.index := by
        by_contra h
        rw [State.take?_eq_none_iff.mpr h] at htake
        cases htake
      exact .inr ⟨e, next, by rw [s.advance_of_some hline, htake],
        Rules.rebases_iff.mpr ⟨hline, hmoves⟩, follows_of_take? htake⟩

theorem Rules.Rebases.unique {e' : Entry} (h : r.Rebases line e) (h' : r.Rebases line e') :
    e = e' := by
  have := h.1.symm.trans h'.1
  cases this
  rfl

theorem Rules.Rebases.follows (h : r.Rebases line e) (s : State) :
    s.Follows r e (s.advance line r).1 := by
  obtain ⟨-, hno⟩ | ⟨e', next, hadvance, he', hfollows⟩ := s.advance_cases line r
  · exact absurd h (hno e)
  · rw [hadvance, h.unique he']
    exact hfollows

end

/-! ### The exact step -/

/-- The number can be kept in 64 bits. -/
def Representable (n : Int) : Prop := Int64.minValue.toInt ≤ n ∧ n ≤ Int64.maxValue.toInt

theorem representable_toInt (i : Int64) : Representable i.toInt := ⟨i.minValue_le_toInt, i.toInt_le⟩

namespace State

variable {s next : State} {r : Rules} {e : Entry}

/-- A special entry leaves alone what is remembered of overflows. -/
theorem Follows.overflow_of_special (h : s.Follows r e next) (hspecial : e.index = r.special) :
    next.overflowed = s.overflowed ∧ next.overflowCode = s.overflowCode := by
  have hover : ¬r.Overflows e.index := fun ho => ho.1 hspecial
  constructor
  · rw [Bool.eq_iff_iff, h.overflowed]
    exact or_iff_left hover
  · rcases h.overflowCode with ⟨hcode, -⟩ | ⟨-, -, ho⟩
    · exact hcode
    · exact absurd ho hover

/-- An index that overflows ends up at zero or above. -/
theorem Follows.index_of_overflows (h : s.Follows r e next) (hr : r.fault? = none)
    (hover : r.Overflows e.index) :
    next.index.toInt = e.index.toInt - r.offset.toInt - r.boundary.toInt ∧
      0 ≤ next.index.toInt := by
  have hindex := h.index hr
  rw [Rules.moved_of_overflows hover] at hindex
  have hle := hover.2
  exact ⟨hindex, by omega⟩

/-- **A step is exact.** Under rules that a pass accepts, in whatever state: a line is passed over,
and the state stays as it is, just if the line holds no entry, or one that is not special and whose
index less the offset cannot be kept in 64 bits. Every other line is rebased, with the code as it
stands in the line. A special index stays, and what is remembered of overflows is left alone. From
any other index the offset is subtracted, and then the boundary, once, if the difference is not
below it; both differences are the exact ones, and the second is not negative. -/
theorem advance_is_exact (hr : r.fault? = none) (s : State) (line : String) :
    let next := (s.advance line r).1
    let outcome := (s.advance line r).2
    (outcome = .passedOver ↔ ∀ e, Entry.ofLine? line = some e →
      e.index ≠ r.special ∧ ¬Representable (e.index.toInt - r.offset.toInt)) ∧
    (outcome = .passedOver → next = s) ∧
    (outcome = .remapped → ∃ e, Entry.ofLine? line = some e ∧ next.code = e.code ∧
      (e.index = r.special → next.index = e.index ∧
        next.overflowed = s.overflowed ∧ next.overflowCode = s.overflowCode) ∧
      (e.index ≠ r.special →
        let shifted := e.index.toInt - r.offset.toInt
        Representable shifted ∧
        (shifted < r.boundary.toInt → next.index.toInt = shifted) ∧
        (r.boundary.toInt ≤ shifted → Representable (shifted - r.boundary.toInt) ∧
          next.index.toInt = shifted - r.boundary.toInt ∧ 0 ≤ next.index.toInt))) := by
  intro next outcome
  obtain ⟨hadvance, hno⟩ | ⟨e, next', hadvance, hrebases, hnext⟩ := s.advance_cases line r
  · have hstate : next = s := congrArg Prod.fst hadvance
    have houtcome : outcome = .passedOver := congrArg Prod.snd hadvance
    refine ⟨iff_of_true houtcome ?_, fun _ => hstate, fun h => ?_⟩
    · intro e he
      have hmoves : ¬r.Moves e.index := fun hmoves => hno e (Rules.rebases_iff.mpr ⟨he, hmoves⟩)
      exact not_or.mp hmoves
    · rw [houtcome] at h
      cases h
  · have hstate : next = next' := congrArg Prod.fst hadvance
    have houtcome : outcome = .remapped := congrArg Prod.snd hadvance
    obtain ⟨he, hmoves⟩ := Rules.rebases_iff.mp hrebases
    rw [houtcome, hstate]
    refine ⟨iff_of_false nofun fun h => ?_, nofun, fun _ => ⟨e, he, hnext.code, ?_, ?_⟩⟩
    · exact absurd hmoves (not_or.mpr (h e he))
    · intro hspecial
      refine ⟨?_, hnext.overflow_of_special hspecial⟩
      rw [← Int64.toInt_inj, hnext.index hr, Rules.moved_of_special hspecial]
    · intro hspecial shifted
      refine ⟨hmoves.resolve_left hspecial, fun hlt => ?_, fun hle => ?_⟩
      · rw [hnext.index hr, Rules.moved_of_below hspecial hlt]
      · obtain ⟨hindex, hnonneg⟩ := hnext.index_of_overflows hr ⟨hspecial, hle⟩
        exact ⟨hindex ▸ representable_toInt _, hindex, hnonneg⟩

/-- Rules at the ends of the range: the largest difference that can be kept, which overflows, the
first that cannot, and the special index beyond it. -/
theorem advance_is_exact_at_ends :
    let r : Rules := ⟨9, -9223372036854775800, 9223372036854775807, .allow⟩
    let s : State := ⟨5, "0x5", false, "0x0000"⟩
    r.fault? = none ∧
      (s.advance "7, /* (0x7) */" r).1.index.toInt = 7 + 9223372036854775800 - 9223372036854775807 ∧
      (s.advance "8, /* (0x8) */" r).1 = s ∧
      (s.advance "9, /* (0x9) */" r).1.overflowed = false := by
  intro r s
  have hr : r.fault? = none := by decide
  have hseven : Entry.ofLine? "7, /* (0x7) */" = some ⟨7, "0x7"⟩ := by decide +kernel
  have height : Entry.ofLine? "8, /* (0x8) */" = some ⟨8, "0x8"⟩ := by decide +kernel
  have hnine : Entry.ofLine? "9, /* (0x9) */" = some ⟨9, "0x9"⟩ := by decide +kernel
  refine ⟨hr, ?_, ?_, ?_⟩
  · obtain ⟨-, -, hremapped⟩ := advance_is_exact hr s "7, /* (0x7) */"
    obtain ⟨e, he, -, -, hmoved⟩ := hremapped (by decide +kernel)
    cases hseven.symm.trans he
    exact ((hmoved (by decide)).2.2 (by decide)).2.1
  · obtain ⟨hiff, hsame, -⟩ := advance_is_exact hr s "8, /* (0x8) */"
    apply hsame
    apply hiff.mpr
    intro e he
    cases height.symm.trans he
    exact ⟨by decide, fun h => absurd h.2 (by decide)⟩
  · obtain ⟨-, -, hremapped⟩ := advance_is_exact hr s "9, /* (0x9) */"
    obtain ⟨e, he, -, hkept, -⟩ := hremapped (by decide +kernel)
    cases hnine.symm.trans he
    exact (hkept rfl).2.1

end State

end GlyphRebase
