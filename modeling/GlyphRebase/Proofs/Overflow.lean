import GlyphRebase.Proofs.Advance
import GlyphRebase.Proofs.AnyOutput
import GlyphRebase.Proofs.FinishedPass

/-!
# The first overflow

A state remembers two things of overflows: whether there was one, and the code of the first
(`State.memory`). A line that overflows writes this memory once, and no other line touches it. So
after any lines the memory holds the code of the first of them that overflows, if one does
(`Reference.FirstOverflow`), and this is what a pass reports at its end
(`Pass.remembers_first_overflow`).
-/

namespace GlyphRebase

/-! ### One line -/

namespace State

/-- What a state remembers of overflows. -/
def memory (s : State) : Bool × String := (s.overflowed, s.overflowCode)

variable {s : State} {r : Rules} {line : String} {e : Entry}

theorem memory_eq_iff {seen : Bool} {code : String} :
    s.memory = (seen, code) ↔ s.overflowed = seen ∧ s.overflowCode = code := by
  simp [memory]

/-- An overflow is written down if nothing was before. -/
theorem memory_advance_first (hs : s.overflowed = false) (h : r.OverflowsAt line e) :
    (s.advance line r).1.memory = (true, e.code) := by
  obtain ⟨hrebases, hover⟩ := h
  have hnext := hrebases.follows s
  refine memory_eq_iff.mpr ⟨hnext.overflowed.mpr (.inr hover), ?_⟩
  rcases hnext.overflowCode with ⟨-, hseen | hnot⟩ | ⟨hcode, -⟩
  · rw [hs] at hseen
    cases hseen
  · exact absurd hover hnot
  · exact hcode

/-- A line that does not overflow leaves the memory alone. -/
theorem memory_advance_of_not_overflowsAt (h : ∀ e, ¬r.OverflowsAt line e) :
    (s.advance line r).1.memory = s.memory := by
  obtain ⟨hadvance, -⟩ | ⟨e, next, hadvance, hrebases, hnext⟩ := s.advance_cases line r
  · rw [hadvance]
  · have hover : ¬r.Overflows e.index := fun ho => h e ⟨hrebases, ho⟩
    rw [hadvance]
    refine memory_eq_iff.mpr ⟨?_, ?_⟩
    · rw [Bool.eq_iff_iff, hnext.overflowed, or_iff_left hover]
    · rcases hnext.overflowCode with ⟨hcode, -⟩ | ⟨-, -, ho⟩
      · exact hcode
      · exact absurd ho hover

/-- Once written, the memory stays. -/
theorem memory_advance_of_overflowed (hs : s.overflowed = true) :
    (s.advance line r).1.memory = s.memory := by
  obtain ⟨hadvance, -⟩ | ⟨e, next, hadvance, -, hnext⟩ := s.advance_cases line r
  · rw [hadvance]
  · rw [hadvance]
    refine memory_eq_iff.mpr ⟨(hnext.overflowed.mpr (.inl hs)).trans hs.symm, ?_⟩
    rcases hnext.overflowCode with ⟨hcode, -⟩ | ⟨-, hnot, -⟩
    · exact hcode
    · rw [hs] at hnot
      cases hnot

end State

/-! ### Any number of lines -/

namespace Reference

/-- The code belongs to the first of the lines that overflows. -/
def FirstOverflow (r : Rules) (lines : List String) (code : String) : Prop :=
  ∃ before line after e, lines = before ++ line :: after ∧ r.OverflowsAt line e ∧ e.code = code ∧
    ∀ earlier ∈ before, ∀ e', ¬r.OverflowsAt earlier e'

/-- No line overflows. -/
def NoOverflow (r : Rules) (lines : List String) : Prop :=
  ∀ line ∈ lines, ∀ e, ¬r.OverflowsAt line e

variable {r : Rules} {s : State} {lines : List String} {code : String}

/-- Either some line is the first to overflow, or none does. -/
theorem exists_firstOverflow_or_noOverflow (r : Rules) (lines : List String) :
    (∃ code, FirstOverflow r lines code) ∨ NoOverflow r lines := by
  induction lines with
  | nil => exact .inr fun _ h => absurd h List.not_mem_nil
  | cons line lines ih =>
    by_cases hline : ∃ e, r.OverflowsAt line e
    · obtain ⟨e, he⟩ := hline
      exact .inl ⟨e.code, [], line, lines, e, rfl, he, rfl, fun _ h => absurd h List.not_mem_nil⟩
    · have hline := not_exists.mp hline
      obtain ⟨code, before, l, after, e, rfl, he, hcode, hfirst⟩ | hno := ih
      · exact .inl ⟨code, line :: before, l, after, e, rfl, he, hcode,
          List.forall_mem_cons.mpr ⟨hline, hfirst⟩⟩
      · exact .inr (List.forall_mem_cons.mpr ⟨hline, hno⟩)

theorem memory_stateAfter_of_noOverflow (h : NoOverflow r lines) :
    (stateAfter r s lines).memory = s.memory := by
  induction lines generalizing s with
  | nil => rfl
  | cons line lines ih =>
    obtain ⟨hline, hlines⟩ := List.forall_mem_cons.mp h
    rw [stateAfter_cons, ih hlines, State.memory_advance_of_not_overflowsAt hline]

theorem memory_stateAfter_of_overflowed (hs : s.overflowed = true) :
    (stateAfter r s lines).memory = s.memory := by
  induction lines generalizing s with
  | nil => rfl
  | cons line lines ih =>
    have hline : (s.advance line r).1.memory = s.memory := State.memory_advance_of_overflowed hs
    rw [stateAfter_cons, ih ((State.memory_eq_iff.mp hline).1.trans hs), hline]

theorem memory_stateAfter_of_first (hs : s.overflowed = false) (h : FirstOverflow r lines code) :
    (stateAfter r s lines).memory = (true, code) := by
  obtain ⟨before, line, after, e, rfl, he, rfl, hfirst⟩ := h
  have hbefore : (stateAfter r s before).memory = s.memory := memory_stateAfter_of_noOverflow hfirst
  have hline := State.memory_advance_first ((State.memory_eq_iff.mp hbefore).1.trans hs) he
  rw [stateAfter_append, stateAfter_cons,
    memory_stateAfter_of_overflowed (State.memory_eq_iff.mp hline).1, hline]

/-- After lines that follow the initial state, the first overflow among them is remembered. -/
theorem firstOverflow?_stateAfter :
    (stateAfter r .initial lines).firstOverflow? = some code ↔ FirstOverflow r lines code := by
  have hclean : State.initial.overflowed = false := rfl
  obtain ⟨first, hfirst⟩ | hno := exists_firstOverflow_or_noOverflow r lines
  · obtain ⟨hseen, hcode⟩ := State.memory_eq_iff.mp (memory_stateAfter_of_first hclean hfirst)
    rw [State.firstOverflow?, if_pos hseen, hcode, Option.some.injEq]
    constructor
    · rintro rfl
      exact hfirst
    · intro h
      exact hcode.symm.trans (State.memory_eq_iff.mp (memory_stateAfter_of_first hclean h)).2
  · have hseen := (State.memory_eq_iff.mp (memory_stateAfter_of_noOverflow (s := .initial) hno)).1
    rw [State.firstOverflow?, if_neg (by rw [hseen]; decide)]
    constructor
    · intro h
      cases h
    · rintro ⟨before, line, after, e, rfl, he, -, -⟩
      exact absurd he (hno line (List.mem_append_right _ (List.mem_cons_self ..)) e)

/-- A record without an overflow tells that there was none. -/
theorem noOverflow_of_firstOverflow?_eq_none
    (h : (stateAfter r .initial lines).firstOverflow? = none) : NoOverflow r lines := by
  obtain ⟨code, hfirst⟩ | hno := exists_firstOverflow_or_noOverflow r lines
  · rw [firstOverflow?_stateAfter.mpr hfirst] at h
    cases h
  · exact hno

end Reference

open Reference

namespace Pass

/-- **The first overflow is remembered, and for ever.** After any lines the code of the first of
them that overflows is on record, and none if none does; a state that has one on record never
changes it. A pass that ends without an error reports the record for the lines of its source, in
its result and in the announcement of its end, and only such a pass announces an end. -/
theorem remembers_first_overflow (rules : Rules) :
    (∀ lines code, (stateAfter rules .initial lines).firstOverflow? = some code ↔
      FirstOverflow rules lines code) ∧
    (∀ lines, NoOverflow rules lines →
      (stateAfter rules .initial lines).overflowed = false ∧
      (stateAfter rules .initial lines).overflowCode = "0x0000") ∧
    (∀ s lines, s.overflowed = true →
      (stateAfter rules s lines).overflowed = true ∧
      (stateAfter rules s lines).overflowCode = s.overflowCode) ∧
    ∀ source (sink : Sink),
      (run rules source sink).finished? = (run rules source sink).result.toOption ∧
      ∀ summary, (run rules source sink).result = .ok summary →
        ∃ texts, source.lines = texts.map .ok ∧
          summary.state = stateAfter rules .initial texts ∧
          ∀ code, summary.state.firstOverflow? = some code ↔ FirstOverflow rules texts code := by
  refine ⟨fun _ _ => firstOverflow?_stateAfter, fun lines hno => ?_, fun s lines hs => ?_,
    fun source sink => ⟨?_, fun summary h => ?_⟩⟩
  · exact State.memory_eq_iff.mp (memory_stateAfter_of_noOverflow (s := .initial) hno)
  · obtain ⟨hseen, hcode⟩ := State.memory_eq_iff.mp (memory_stateAfter_of_overflowed hs)
    exact ⟨hseen.trans hs, hcode⟩
  · have := runInto_finished? .ofSink rules source sink
    rwa [← run_course] at this
  · obtain ⟨-, texts, hlines, rfl, -⟩ := run_eq_ok h
    exact ⟨texts, hlines, rfl, fun code => firstOverflow?_stateAfter⟩

/-- The special entry lies beyond the boundary, two entries overflow, and a line between them holds
none: the first of the two is reported. -/
theorem remembers_first_overflow_past_special :
    let rules : Rules := ⟨200000, 0xBFB0, 0x10000, .allow⟩
    let table := ["200000, /* (0x1) */", "114608, /* (0xABCD) */", "garbage",
      "114700, /* (0x1111) */"]
    let source := Source.ofBytes (Utf8.encode ("\n".intercalate table))
    let summary : Summary := ⟨4, 3, ⟨92, "0x1111", true, "0xABCD"⟩⟩
    (run rules source Sink.perfect).result = .ok summary ∧
      (run rules source Sink.perfect).finished? = some summary ∧
      (∃ texts, source.lines = texts.map .ok ∧ FirstOverflow rules texts "0xABCD") ∧
      NoOverflow rules (table.take 1) ∧
      (stateAfter rules .initial (table.take 1)).overflowCode = "0x0000" ∧
      (stateAfter rules ⟨0, "0x0", true, "0xFF"⟩ table).overflowCode = "0xFF" := by
  intro rules table source summary
  obtain ⟨-, hclean, hkept, hreport⟩ := remembers_first_overflow rules
  have hresult : (run rules source Sink.perfect).result = .ok summary := by decide +kernel
  obtain ⟨hfinished, hsummary⟩ := hreport source .perfect
  obtain ⟨texts, hlines, -, hfirst⟩ := hsummary summary hresult
  have hentry : Entry.ofLine? "200000, /* (0x1) */" = some ⟨200000, "0x1"⟩ := by decide +kernel
  have hno : NoOverflow rules (table.take 1) := by
    intro line hline e he
    rw [List.mem_singleton.mp hline] at he
    have hspecial := he.1.1.symm.trans hentry
    cases hspecial
    exact he.2.1 rfl
  refine ⟨hresult, hfinished.trans (by rw [hresult]; rfl), ⟨texts, hlines, ?_⟩, hno,
    (hclean _ hno).2, (hkept _ table rfl).2⟩
  exact (hfirst "0xABCD").mp rfl

end Pass

end GlyphRebase
