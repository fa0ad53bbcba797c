import GlyphRebase.Proofs.FinishedPass
import GlyphRebase.Proofs.LatestEntry

/-!
# Lines that are passed over

A line that is passed over leaves the state as it is, so the line written for it is the one before
it once more. Put such lines into a table wherever you like, or take them out of it: the other lines
lead to the same states and are written alike, and a pass ends as it did, but for the number of
lines (`Reference.states_without`, `Reference.latest_line_decides`). What is written for a line is
told by the last line so far that was rebased, and by nothing before it.
-/

namespace GlyphRebase

/-! ### Deleting from lists -/

section
variable {α β : Type} {gone : Nat → Bool}

/-- A list without what stands at some positions. -/
def without (gone : Nat → Bool) : List α → List α
  | [] => []
  | x :: xs =>
    let rest := without (fun i => gone (i + 1)) xs
    if gone 0 then rest else x :: rest

theorem without_cons_of_gone (h : gone 0 = true) (x : α) (xs : List α) :
    without gone (x :: xs) = without (fun i => gone (i + 1)) xs := by simp [without, h]

theorem without_cons_of_kept (h : gone 0 = false) (x : α) (xs : List α) :
    without gone (x :: xs) = x :: without (fun i => gone (i + 1)) xs := by simp [without, h]

theorem map_without (f : α → β) (gone : Nat → Bool) (xs : List α) :
    (without gone xs).map f = without gone (xs.map f) := by
  induction xs generalizing gone with
  | nil => rfl
  | cons x xs ih => cases h : gone 0 <;> simp [without, h, ih]

end

namespace Reference

variable {r : Rules} {s : State} {lines : List String} {gone : Nat → Bool} {i : Nat} {line : String}

/-! ### What is written -/

/-- The lines that are written for lines, one for each. -/
def written (r : Rules) (s : State) (lines : List String) : List (List UInt8) :=
  (states r s lines).map fun next => next.entry.bytes

theorem output_eq_flatten (r : Rules) (s : State) (lines : List String) :
    output r s lines = (written r s lines).flatten := List.flatMap_def ..

/-! ### Outcomes -/

/-- What lines do does not depend on the state that they meet. -/
theorem outcomes_eq_map (hr : r.fault? = none) (s : State) (lines : List String) :
    outcomes r s lines =
      lines.map fun line => if (r.rebased? line).isSome then .remapped else .passedOver := by
  induction lines generalizing s with
  | nil => rfl
  | cons line lines ih => rw [outcomes, s.outcome_advance hr, ih, List.map_cons]

/-- A line that is passed over in one state is passed over in all of them. -/
theorem rebased?_eq_none_of_passedOver (hr : r.fault? = none)
    (h : (s.advance line r).2 = .passedOver) : r.rebased? line = none := by
  rw [s.outcome_advance hr] at h
  cases hline : r.rebased? line with
  | none => rfl
  | some e => simp [hline] at h

/-- Where a line is passed over, the state is the one before it. -/
theorem getElem?_states_of_passedOver (hr : r.fault? = none)
    (h : (outcomes r s lines)[i]? = some .passedOver) :
    (states r s lines)[i]? = (s :: states r s lines)[i]? := by
  induction lines generalizing s i with
  | nil => simp [outcomes] at h
  | cons line lines ih =>
    cases i with
    | zero =>
      have hline : (s.advance line r).2 = .passedOver := by simpa [outcomes] using h
      have hadvance := s.advance_of_rebased?_none (rebased?_eq_none_of_passedOver hr hline)
      simp [states, hadvance]
    | succ i => exact ih (by simpa [outcomes] using h)

/-- Where a line is rebased, the state holds what it is rebased into. -/
theorem getElem?_states_of_remapped (hr : r.fault? = none) (hline : lines[i]? = some line)
    (h : (outcomes r s lines)[i]? = some .remapped) :
    ∃ next, (states r s lines)[i]? = some next ∧ r.rebased? line = some next.entry := by
  induction lines generalizing s i with
  | nil => simp at hline
  | cons first lines ih =>
    cases i with
    | zero =>
      obtain rfl : first = line := by simpa using hline
      have houtcome : (s.advance first r).2 = .remapped := by simpa [outcomes] using h
      cases hrebased : r.rebased? first with
      | none =>
        rw [s.advance_of_rebased?_none hrebased] at houtcome
        cases houtcome
      | some e =>
        obtain ⟨-, rfl⟩ := s.advance_of_rebased?_some hr hrebased
        exact ⟨_, rfl, rfl⟩
    | succ i => exact ih (by simpa using hline) (by simpa [outcomes] using h)

/-! ### The last line that is rebased -/

/-- Of the lines up to a position, the last that is rebased. -/
def LatestAt (r : Rules) (s : State) (lines : List String) (i : Nat) (line : String) : Prop :=
  ∃ j ≤ i, lines[j]? = some line ∧ (outcomes r s lines)[j]? = some .remapped ∧
    ∀ k, j < k → k ≤ i → (outcomes r s lines)[k]? = some .passedOver

/-- While lines are passed over, the state stays. -/
theorem getElem?_states_of_all_passedOver (hr : r.fault? = none) {j : Nat} (hji : j ≤ i)
    (h : ∀ k, j < k → k ≤ i → (outcomes r s lines)[k]? = some .passedOver) :
    (states r s lines)[i]? = (states r s lines)[j]? := by
  induction hji with
  | refl => rfl
  | @step i hji ih =>
    have hlast := h (i + 1) (Nat.lt_succ_of_le hji) (Nat.le_refl _)
    rw [getElem?_states_of_passedOver hr hlast, List.getElem?_cons_succ]
    exact ih fun k hjk hki => h k hjk (Nat.le_succ_of_le hki)

/-- What is written for a line is the entry that the last line so far was rebased into. -/
theorem LatestAt.written_eq (hr : r.fault? = none) (h : LatestAt r s lines i line) :
    ∃ e, r.rebased? line = some e ∧ (written r s lines)[i]? = some e.bytes := by
  obtain ⟨j, hji, hline, hremapped, hpassed⟩ := h
  obtain ⟨next, hnext, hrebased⟩ := getElem?_states_of_remapped hr hline hremapped
  refine ⟨next.entry, hrebased, ?_⟩
  simp [written, getElem?_states_of_all_passedOver hr hji hpassed, hnext]

/-- Before any line is rebased, the state is that at the start. -/
theorem getElem?_states_of_none_remapped (hr : r.fault? = none)
    (h : ∀ k ≤ i, (outcomes r s lines)[k]? = some .passedOver) :
    (states r s lines)[i]? = some s := by
  rw [getElem?_states_of_all_passedOver hr (Nat.zero_le i) fun k _ hki => h k hki,
    getElem?_states_of_passedOver hr (h 0 (Nat.zero_le i))]
  rfl

/-! ### Lines that are passed over come and go -/

/-- At the positions that are deleted stand lines that are passed over. -/
def PassesOver (r : Rules) (gone : Nat → Bool) (lines : List String) : Prop :=
  ∀ i line, gone i = true → lines[i]? = some line →
    ∃ s : State, (s.advance line r).2 = .passedOver

theorem PassesOver.tail (h : PassesOver r gone (line :: lines)) :
    PassesOver r (fun i => gone (i + 1)) lines := fun i => h (i + 1)

theorem PassesOver.head (hr : r.fault? = none) (h : PassesOver r gone (line :: lines))
    (hgone : gone 0 = true) : r.rebased? line = none := by
  obtain ⟨s, hs⟩ := h 0 line hgone rfl
  exact rebased?_eq_none_of_passedOver hr hs

theorem filterMap_without (hr : r.fault? = none) (h : PassesOver r gone lines) :
    (without gone lines).filterMap r.rebased? = lines.filterMap r.rebased? := by
  induction lines generalizing gone with
  | nil => rfl
  | cons line lines ih =>
    cases hgone : gone 0 with
    | true =>
      rw [without_cons_of_gone hgone, ih h.tail, List.filterMap_cons_none (h.head hr hgone)]
    | false => rw [without_cons_of_kept hgone, List.filterMap_cons, List.filterMap_cons, ih h.tail]

/-- **The other lines lead to the same states.** -/
theorem states_without (hr : r.fault? = none) (h : PassesOver r gone lines) (s : State) :
    states r s (without gone lines) = without gone (states r s lines) := by
  induction lines generalizing gone s with
  | nil => rfl
  | cons line lines ih =>
    cases hgone : gone 0 with
    | true =>
      have hadvance := s.advance_of_rebased?_none (h.head hr hgone)
      rw [states, hadvance, without_cons_of_gone hgone, without_cons_of_gone hgone, ih h.tail]
    | false =>
      rw [states, without_cons_of_kept hgone, without_cons_of_kept hgone, states, ih h.tail]

theorem stateAfter_without (hr : r.fault? = none) (h : PassesOver r gone lines) (s : State) :
    stateAfter r s (without gone lines) = stateAfter r s lines := by
  induction lines generalizing gone s with
  | nil => rfl
  | cons line lines ih =>
    cases hgone : gone 0 with
    | true =>
      have hadvance := s.advance_of_rebased?_none (h.head hr hgone)
      rw [without_cons_of_gone hgone, stateAfter_cons, hadvance, ih h.tail]
    | false => rw [without_cons_of_kept hgone, stateAfter_cons, stateAfter_cons, ih h.tail]

theorem count_outcomes_without (hr : r.fault? = none) (h : PassesOver r gone lines) (s : State) :
    (outcomes r s (without gone lines)).count .remapped = (outcomes r s lines).count .remapped := by
  rw [count_outcomes hr, count_outcomes hr, filterMap_without hr h]

theorem written_without (hr : r.fault? = none) (h : PassesOver r gone lines) (s : State) :
    written r s (without gone lines) = without gone (written r s lines) := by
  rw [written, states_without hr h, map_without, written]

/-- At a position that is deleted the state is the one before it. -/
theorem PassesOver.getElem?_states (hr : r.fault? = none) (h : PassesOver r gone lines)
    (hgone : gone i = true) (hi : i < lines.length) :
    (states r s lines)[i]? = (s :: states r s lines)[i]? := by
  have hline : lines[i]? = some lines[i] := List.getElem?_eq_getElem hi
  obtain ⟨t, ht⟩ := h i _ hgone hline
  refine getElem?_states_of_passedOver hr ?_
  simp [outcomes_eq_map hr, hline, rebased?_eq_none_of_passedOver hr ht]

/-- A rejected line is one that is rebased, so none comes or goes. -/
theorem accepted_without_iff (hr : r.fault? = none) (h : PassesOver r gone lines) :
    Accepted r s (without gone lines) ↔ Accepted r s lines := by
  have hrefuses (lines : List String) : Accepted r s lines ↔
      ∀ e ∈ lines.filterMap r.rebased?, ¬(r.negative = .reject ∧ e.index < 0) := by
    rw [accepted_iff hr]
    simp only [Rules.Refuses, List.mem_filterMap]
    grind
  rw [hrefuses, hrefuses, filterMap_without hr h]

/-! ### Two passes -/

/-- What becomes of the other lines when those at some positions are deleted: nothing. What was
written for the deleted lines is gone, and each such line was a copy of the one before it, or of the
entry at the start. -/
structure Transparent (r : Rules) (s : State) (gone : Nat → Bool) (lines : List String) : Prop where
  states : states r s (without gone lines) = without gone (states r s lines)
  stateAfter : stateAfter r s (without gone lines) = stateAfter r s lines
  matched : (outcomes r s (without gone lines)).count .remapped =
    (outcomes r s lines).count .remapped
  written : written r s (without gone lines) = without gone (written r s lines)
  copied : ∀ i, gone i = true → i < lines.length →
    (Reference.states r s lines)[i]? = (s :: Reference.states r s lines)[i]? ∧
      (Reference.written r s lines)[i]? = (s.entry.bytes :: Reference.written r s lines)[i]?

theorem transparent_of_passesOver (hr : r.fault? = none) (h : PassesOver r gone lines)
    (s : State) : Transparent r s gone lines where
  states := states_without hr h s
  stateAfter := stateAfter_without hr h s
  matched := count_outcomes_without hr h s
  written := written_without hr h s
  copied := by
    intro i hgone hi
    have hstates := h.getElem?_states hr (s := s) hgone hi
    refine ⟨hstates, ?_⟩
    have hmap := congrArg (Option.map fun next : State => next.entry.bytes) hstates
    rwa [← List.getElem?_map, ← List.getElem?_map, List.map_cons] at hmap

/-- The pass over some lines and the pass without those at some positions come to their end
together, with the same state and as many lines rebased, and write the same for the lines that both
have. -/
def EndTogether (r : Rules) (gone : Nat → Bool) (lines : List String) : Prop :=
  ∀ (source source' : Source) (sink sink' : Sink), source.lines = lines.map .ok →
    source'.lines = (without gone lines).map .ok → sink.Accepting → sink'.Accepting →
    ∀ matched state,
      ((Pass.run r source sink).result = .ok ⟨lines.length, matched, state⟩ ↔
        (Pass.run r source' sink').result = .ok ⟨(without gone lines).length, matched, state⟩) ∧
      ((Pass.run r source sink).result = .ok ⟨lines.length, matched, state⟩ →
        (Pass.run r source sink).sink.taken.toList =
            sink.taken.toList ++ (written r .initial lines).flatten ∧
          (Pass.run r source' sink').sink.taken.toList =
            sink'.taken.toList ++ (without gone (written r .initial lines)).flatten)

theorem endTogether_of_passesOver (hr : r.fault? = none) (h : PassesOver r gone lines) :
    EndTogether r gone lines := by
  intro source source' sink sink' hlines hlines' hsink hsink' matched state
  rw [Pass.run_eq_ok_iff_of_lines hr hlines hsink, Pass.run_eq_ok_iff_of_lines hr hlines' hsink',
    accepted_without_iff hr h]
  constructor
  · simp only [summary, count_outcomes_without hr h, stateAfter_without hr h, Summary.mk.injEq,
      true_and]
  · rintro ⟨haccepted, -⟩
    have haccepted' := (accepted_without_iff hr h).mpr haccepted
    rw [(Pass.run_of_lines hr hlines haccepted hsink).2,
      (Pass.run_of_lines hr hlines' haccepted' hsink').2, output_eq_flatten, output_eq_flatten,
      written_without hr h]
    exact ⟨rfl, rfl⟩

/-- **The last line that was rebased tells what is written**, and the lines that are passed over
tell nothing.

Whether a line is rebased, and into what, is the same in all states. So what is written for a line
depends on the last line so far that was rebased, wherever it stands and whatever stands before it;
until there is one, the entry at the start is written. Lines that are passed over can be deleted
anywhere or, read the other way, put in. -/
theorem latest_line_decides {r : Rules} (hr : r.fault? = none) :
    (∀ (line : String) (s s' : State),
      (s.advance line r).2 = (s'.advance line r).2 ∧
        ((s.advance line r).2 = .remapped →
          (s.advance line r).1.entry = (s'.advance line r).1.entry)) ∧
    (∀ (s s' : State) (lines lines' : List String) (i i' : Nat) (line : String),
      LatestAt r s lines i line → LatestAt r s' lines' i' line →
        ∃ bytes, (written r s lines)[i]? = some bytes ∧ (written r s' lines')[i']? = some bytes) ∧
    (∀ (s : State) (lines : List String) (i : Nat),
      (∀ k ≤ i, (outcomes r s lines)[k]? = some .passedOver) →
        (written r s lines)[i]? = some s.entry.bytes) ∧
    ∀ (gone : Nat → Bool) (lines : List String), PassesOver r gone lines →
      (∀ s, Transparent r s gone lines) ∧ EndTogether r gone lines := by
  refine ⟨fun line s s' => ⟨?_, fun h => ?_⟩, ?_, ?_, ?_⟩
  · rw [s.outcome_advance hr, s'.outcome_advance hr]
  · cases hline : r.rebased? line with
    | none =>
      rw [s.advance_of_rebased?_none hline] at h
      cases h
    | some e =>
      rw [(s.advance_of_rebased?_some hr hline).2, (s'.advance_of_rebased?_some hr hline).2]
  · intro s s' lines lines' i i' line h h'
    obtain ⟨e, he, hwritten⟩ := h.written_eq hr
    obtain ⟨e', he', hwritten'⟩ := h'.written_eq hr
    obtain rfl : e = e' := Option.some_inj.mp (he.symm.trans he')
    exact ⟨e.bytes, hwritten, hwritten'⟩
  · intro s lines i h
    simp [written, getElem?_states_of_none_remapped hr h]
  · intro gone lines hpassed
    exact ⟨transparent_of_passesOver hr hpassed, endTogether_of_passesOver hr hpassed⟩

/-- A heading, an index beyond 64 bits and a shift beyond them follow an entry that overflows. -/
theorem latest_line_decides_before_noise :
    let rules : Rules := ⟨512, -9223372036854775807, 0x10000, .allow⟩
    let noise := ["glyphs:", "99999999999999999999, /* (0x1) */", "2, /* (0x2) */"]
    let table := "0, /* (0xAB) */" :: noise
    let gone (i : Nat) : Bool := decide (1 ≤ i)
    rules.fault? = none ∧ LatestAt rules .initial table 3 "0, /* (0xAB) */" ∧
      (written rules .initial table)[3]? = (written rules .initial ["0, /* (0xAB) */"])[0]? ∧
      (written rules .initial noise)[2]? = some State.initial.entry.bytes ∧
      PassesOver rules gone table ∧
      stateAfter rules .initial ["0, /* (0xAB) */"] = stateAfter rules .initial table ∧
      (stateAfter rules .initial table).firstOverflow? = some "0xAB" := by
  intro rules noise table gone
  have hr : rules.fault? = none := by decide
  have hnoise : ∀ line ∈ noise, (State.initial.advance line rules).2 = .passedOver := by
    decide +kernel
  have htable : LatestAt rules .initial table 3 "0, /* (0xAB) */" := by
    have hbehind : ∀ k ≤ 3, 0 < k → (outcomes rules .initial table)[k]? = some .passedOver := by
      decide +kernel
    exact ⟨0, Nat.zero_le 3, rfl, by decide +kernel, fun k hk hki => hbehind k hki hk⟩
  have halone : LatestAt rules .initial ["0, /* (0xAB) */"] 0 "0, /* (0xAB) */" :=
    ⟨0, Nat.le_refl 0, rfl, by decide +kernel, by omega⟩
  have hpasses : PassesOver rules gone table := by
    intro i line hi hline
    cases i with
    | zero => cases hi
    | succ i => exact ⟨.initial, hnoise line (List.mem_of_getElem? hline)⟩
  obtain ⟨-, hlatest, hstart, hgone⟩ := latest_line_decides hr
  obtain ⟨bytes, hbytes, hbytes'⟩ := hlatest _ _ _ _ _ _ _ htable halone
  exact ⟨hr, htable, hbytes.trans hbytes'.symm, hstart .initial noise 2 (by decide +kernel),
    hpasses, ((hgone gone table hpasses).1 .initial).stateAfter, by decide +kernel⟩

end Reference

end GlyphRebase
