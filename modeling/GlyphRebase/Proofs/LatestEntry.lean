import GlyphRebase.Proofs.Overflow

/-!
# The entry last rebased

Whether a line is rebased, and into which entry, does not depend on the state that it meets, if the
rules can be applied (`Rules.rebased?`). So the entry that is written for a line is that of the last
line so far that was rebased, or the entry at the start if none was (`Reference.entries`); what
happened before has no part in it. The same holds of the lines that the rules reject
(`Rules.Refuses`) and of the number of lines that are rebased.
-/

namespace GlyphRebase

namespace Rules

/-- The entry that is written for a line, if the line is rebased. -/
def rebased? (r : Rules) (line : String) : Option Entry :=
  match State.initial.advance line r with
  | (next, .remapped) => some next.entry
  | (_, .passedOver) => none

/-- The line is rebased into an entry with a negative index, and the rules reject that. -/
def Refuses (r : Rules) (line : String) : Prop :=
  r.negative = .reject ∧ ∃ e, r.rebased? line = some e ∧ e.index < 0

variable {r : Rules} {line : String}

theorem rebased?_eq_none_iff : r.rebased? line = none ↔ ∀ e, ¬r.Rebases line e := by
  rw [rebased?]
  obtain ⟨hadvance, hno⟩ | ⟨e, next, hadvance, he, -⟩ := State.initial.advance_cases line r
  · rw [hadvance]
    exact iff_of_true rfl hno
  · rw [hadvance]
    exact iff_of_false nofun fun h => h e he

end Rules

namespace State

variable {r : Rules} {line : String} {e : Entry}

/-- Entries that follow different states are written alike. -/
theorem Follows.entry_eq {s s' next next' : State} (hr : r.fault? = none)
    (h : s.Follows r e next) (h' : s'.Follows r e next') : next.entry = next'.entry := by
  have hindex : next.index = next'.index :=
    Int64.toInt_inj.mp ((h.index hr).trans (h'.index hr).symm)
  rw [entry, entry, hindex, h.code, h'.code]

theorem advance_of_rebased?_none (s : State) (h : r.rebased? line = none) :
    s.advance line r = (s, .passedOver) := by
  obtain ⟨hadvance, -⟩ | ⟨e, -, -, he, -⟩ := s.advance_cases line r
  · exact hadvance
  · exact absurd he (Rules.rebased?_eq_none_iff.mp h e)

theorem advance_of_rebased?_some (s : State) (hr : r.fault? = none)
    (h : r.rebased? line = some e) :
    (s.advance line r).2 = .remapped ∧ (s.advance line r).1.entry = e := by
  rw [Rules.rebased?] at h
  obtain ⟨hadvance, -⟩ | ⟨e₀, next₀, hadvance, he₀, hfollows₀⟩ := initial.advance_cases line r
  · rw [hadvance] at h
    cases h
  · rw [hadvance] at h
    cases h
    exact ⟨he₀.2 s, (he₀.follows s).entry_eq hr hfollows₀⟩

/-- The entry after a line is the one that the line is rebased into, or the one before it. -/
theorem entry_advance (s : State) (hr : r.fault? = none) :
    (s.advance line r).1.entry = (r.rebased? line).getD s.entry := by
  cases h : r.rebased? line with
  | none => rw [s.advance_of_rebased?_none h, Option.getD_none]
  | some e => exact (s.advance_of_rebased?_some hr h).2

theorem outcome_advance (s : State) (hr : r.fault? = none) :
    (s.advance line r).2 = if (r.rebased? line).isSome then .remapped else .passedOver := by
  cases h : r.rebased? line with
  | none =>
    rw [s.advance_of_rebased?_none h]
    rfl
  | some e => exact (s.advance_of_rebased?_some hr h).1

end State

namespace Reference

variable {r : Rules} {s : State}

/-- The entries that are written for lines, after a given one. -/
def entries (r : Rules) (e : Entry) : List String → List Entry
  | [] => []
  | line :: lines =>
    let now := (r.rebased? line).getD e
    now :: entries r now lines

/-- How many of the first lines are passed over, so that the entry at the start is written once more
for each of them. -/
def echoed (r : Rules) : List String → Nat
  | [] => 0
  | line :: lines => if (r.rebased? line).isSome then 0 else echoed r lines + 1

/-- What is written for lines depends on the state that they meet through its entry alone. -/
theorem map_entry_states (hr : r.fault? = none) (s : State) (lines : List String) :
    (states r s lines).map State.entry = entries r s.entry lines := by
  induction lines generalizing s with
  | nil => rfl
  | cons line lines ih => rw [states, List.map_cons, ih, s.entry_advance hr, entries]

/-- The entry at the start is seen in the lines before the first that is rebased, and nowhere
else. -/
theorem exists_entries_eq (r : Rules) (lines : List String) :
    ∃ rest, ∀ e, entries r e lines = List.replicate (echoed r lines) e ++ rest := by
  induction lines with
  | nil => exact ⟨[], fun _ => rfl⟩
  | cons line lines ih =>
    cases h : r.rebased? line with
    | none =>
      obtain ⟨rest, hrest⟩ := ih
      refine ⟨rest, fun e => ?_⟩
      simp only [entries, echoed, h, Option.getD_none, hrest, Option.isSome_none,
        Bool.false_eq_true, if_false, List.replicate_succ, List.cons_append]
    | some now =>
      refine ⟨now :: entries r now lines, fun e => ?_⟩
      simp only [entries, echoed, h, Option.getD_some, Option.isSome_some, if_true,
        List.replicate_zero, List.nil_append]

/-- Lines after one that is rebased do not count. -/
theorem echoed_append_cons {line : String} {e : Entry} (h : r.rebased? line = some e)
    (before after : List String) : echoed r (before ++ line :: after) = echoed r before := by
  induction before with
  | nil => simp [echoed, h]
  | cons first before ih => rw [List.cons_append, echoed, echoed, ih]

/-- The entry after lines is that of the last line that is rebased. -/
theorem entry_stateAfter (hr : r.fault? = none) (s : State) (lines : List String) :
    (stateAfter r s lines).entry = ((lines.filterMap r.rebased?).getLast?).getD s.entry := by
  induction lines generalizing s with
  | nil => rfl
  | cons line lines ih =>
    rw [stateAfter_cons, ih, s.entry_advance hr]
    cases h : r.rebased? line with
    | none => rw [List.filterMap_cons_none h, Option.getD_none]
    | some e =>
      rw [List.filterMap_cons_some h, List.getLast?_cons, Option.getD_some, Option.getD_some]

/-- How many lines are rebased does not depend on the state that they meet. -/
theorem count_outcomes (hr : r.fault? = none) (s : State) (lines : List String) :
    (outcomes r s lines).count .remapped = (lines.filterMap r.rebased?).length := by
  induction lines generalizing s with
  | nil => rfl
  | cons line lines ih =>
    rw [outcomes, List.count_cons, ih, s.outcome_advance hr]
    cases h : r.rebased? line with
    | none => rw [List.filterMap_cons_none h]; rfl
    | some e => rw [List.filterMap_cons_some h]; rfl

/-! ### Lines that are rejected -/

theorem rejected_iff (hr : r.fault? = none) {line : String} :
    Rejected r s line ↔ r.Refuses line := by
  refine and_congr_right fun _ => ?_
  cases h : r.rebased? line with
  | none =>
    rw [s.advance_of_rebased?_none h]
    exact iff_of_false nofun nofun
  | some e =>
    obtain ⟨houtcome, hentry⟩ := s.advance_of_rebased?_some hr h
    have hindex : (s.advance line r).1.index = e.index := congrArg Entry.index hentry
    simp [houtcome, hindex]

theorem accepted_iff (hr : r.fault? = none) {lines : List String} :
    Accepted r s lines ↔ ∀ line ∈ lines, ¬r.Refuses line := by
  induction lines generalizing s with
  | nil => exact iff_of_true .nil nofun
  | cons line lines ih => rw [accepted_cons_iff, rejected_iff hr, ih, List.forall_mem_cons]

end Reference

end GlyphRebase
