import GlyphRebase.Proofs.Overflow

/-!
# The range of the written indices

Under rules that reject negative indices, and whose special index lies below the boundary, a pass
that comes to its end has written no negative index. It has written one at the boundary or above
exactly if some entry lies two boundaries or more above the offset, for an index wraps only once
(`Pass.written_in_range`).

What is written are the states that the lines lead to, and each of these has the index of an entry
that was rebased, or still the initial one (`Reference.forall_states_index_iff`).
-/

namespace GlyphRebase

namespace Rules

/-- The number is an index of the code space that the rules wrap into. -/
def InSpace (r : Rules) (n : Int) : Prop := 0 ≤ n ∧ n < r.boundary.toInt

variable {r : Rules} {i : Int64}

/-- An index that wraps once is still beyond the boundary if it was two boundaries beyond. -/
theorem moved_lt_boundary_iff (hr : r.fault? = none) (hspecial : r.special < r.boundary) :
    r.moved i < r.boundary.toInt ↔
      ¬(i ≠ r.special ∧ r.offset.toInt + 2 * r.boundary.toInt ≤ i.toInt) := by
  have hb := fault?_eq_none_iff.mp hr
  rw [Int64.lt_iff_toInt_lt] at hspecial
  by_cases hi : i = r.special
  · rw [moved_of_special hi, hi]
    exact iff_of_true hspecial fun h => h.1 rfl
  · by_cases hbelow : i.toInt - r.offset.toInt < r.boundary.toInt
    · rw [moved_of_below hi hbelow]
      exact iff_of_true hbelow fun h => by have := h.2; omega
    · have hover : r.Overflows i := ⟨hi, by omega⟩
      rw [moved_of_overflows hover, not_and, Int.not_le]
      exact ⟨fun h _ => by omega, fun h => by have := h hi; omega⟩

theorem moved_lt_boundary_of_not_overflows (hspecial : r.special < r.boundary)
    (h : ¬r.Overflows i) : r.moved i < r.boundary.toInt := by
  rw [Int64.lt_iff_toInt_lt] at hspecial
  by_cases hi : i = r.special
  · rwa [moved_of_special hi, hi]
  · have hbelow : i.toInt - r.offset.toInt < r.boundary.toInt :=
      Int.not_le.mp fun hle => h ⟨hi, hle⟩
    rwa [moved_of_below hi hbelow]

end Rules

namespace Reference

variable {r : Rules} {s : State} {lines : List String}

theorem length_states : (states r s lines).length = lines.length := by
  induction lines generalizing s with
  | nil => rfl
  | cons line lines ih => rw [states, List.length_cons, ih, List.length_cons]

/-- What holds of the index at the start holds of all indices, if the entries that are rebased
move theirs so that it holds, and only then. -/
theorem forall_states_index_iff (hr : r.fault? = none) {p : Int → Prop} (hs : p s.index.toInt) :
    (∀ next ∈ states r s lines, p next.index.toInt) ↔
      ∀ line ∈ lines, ∀ e, r.Rebases line e → p (r.moved e.index) := by
  induction lines generalizing s with
  | nil => simp [states]
  | cons line lines ih =>
    rw [states, List.forall_mem_cons, List.forall_mem_cons]
    obtain ⟨hadvance, hno⟩ | ⟨e, next, hadvance, hrebases, hnext⟩ := s.advance_cases line r
    · rw [hadvance]
      simp only [ih hs, hs, true_and]
      exact ⟨fun h => ⟨fun e he => absurd he (hno e), h⟩, fun h => h.2⟩
    · rw [hadvance]
      have hline : (∀ e', r.Rebases line e' → p (r.moved e'.index)) ↔ p next.index.toInt := by
        rw [hnext.index hr]
        exact ⟨fun h => h e hrebases, fun h e' he' => hrebases.unique he' ▸ h⟩
      rw [hline]
      exact and_congr_right fun hp => ih hp

/-- Lines that are accepted under rules that reject negative indices move no index below zero. -/
theorem Accepted.moved_nonneg (h : Accepted r s lines) (hr : r.fault? = none)
    (hpolicy : r.negative = .reject) :
    ∀ line ∈ lines, ∀ e, r.Rebases line e → 0 ≤ r.moved e.index := by
  intro line hline e he
  obtain ⟨before, after, rfl⟩ := List.append_of_mem hline
  have hnot := h before line after rfl
  have hindex := (he.follows (stateAfter r s before)).index hr
  by_contra hneg
  refine hnot ⟨hpolicy, he.2 _, Int64.lt_iff_toInt_lt.mpr ?_⟩
  rw [hindex, Int64.toInt_zero]
  omega

end Reference

open Reference

namespace Pass

/-- **The range of what a finished pass wrote**, under rules that reject negative indices and have
their special index below the boundary. It wrote an entry for each line, and no negative index.
Without an overflow all indices lie in the code space; in any case they do exactly if no entry that
was moved lies two boundaries or more above the offset. -/
theorem written_in_range {rules : Rules} {source : Source} {sink : Sink} {summary : Summary}
    (hpolicy : rules.negative = .reject) (hspecial : rules.special < rules.boundary)
    (h : (run rules source sink).result = .ok summary) :
    let written := (run rules source sink).written
    ∃ texts : List String, source.lines = texts.map .ok ∧ written.length = texts.length ∧
      (run rules source sink).sink.taken.toList =
        sink.taken.toList ++ written.flatMap Entry.bytes ∧
      (∀ e ∈ written, 0 ≤ e.index.toInt) ∧
      (summary.state.firstOverflow? = none → ∀ e ∈ written, rules.InSpace e.index.toInt) ∧
      ((∀ e ∈ written, rules.InSpace e.index.toInt) ↔
        ¬∃ text ∈ texts, ∃ e, rules.Rebases text e ∧ e.index ≠ rules.special ∧
          rules.offset.toInt + 2 * rules.boundary.toInt ≤ e.index.toInt) := by
  intro written
  obtain ⟨hrules, texts, hlines, rfl, hfinishes⟩ := run_eq_ok h
  have hwritten : written = (states rules .initial texts).map State.entry :=
    run_written hrules hlines h
  have hall {p : Int → Prop} (hp : p 0) : (∀ e ∈ written, p e.index.toInt) ↔
      ∀ text ∈ texts, ∀ e, rules.Rebases text e → p (rules.moved e.index) := by
    rw [hwritten, List.forall_mem_map]
    exact forall_states_index_iff hrules hp
  have hnonneg := hfinishes.accepted.moved_nonneg hrules hpolicy
  have hb := Rules.fault?_eq_none_iff.mp hrules
  refine ⟨texts, hlines, ?_, ?_, ?_, ?_, ?_⟩
  · rw [hwritten, List.length_map, length_states]
  · rw [hfinishes.taken, hwritten, List.flatMap_map]
    rfl
  · exact (hall (p := (0 ≤ ·)) (Int.le_refl 0)).mpr hnonneg
  · intro hclean
    have hno : NoOverflow rules texts := noOverflow_of_firstOverflow?_eq_none hclean
    refine (hall (p := rules.InSpace) ⟨Int.le_refl 0, hb⟩).mpr fun text htext e he => ?_
    exact ⟨hnonneg text htext e he, Rules.moved_lt_boundary_of_not_overflows hspecial
      fun hover => hno text htext e ⟨he, hover⟩⟩
  · rw [hall (p := rules.InSpace) ⟨Int.le_refl 0, hb⟩]
    constructor
    · rintro h ⟨text, htext, e, he, hfar⟩
      exact (Rules.moved_lt_boundary_iff hrules hspecial).mp (h text htext e he).2 hfar
    · intro h text htext e he
      refine ⟨hnonneg text htext e he, (Rules.moved_lt_boundary_iff hrules hspecial).mpr ?_⟩
      exact fun hfar => h ⟨text, htext, e, he, hfar⟩

/-- The special entry, a line that holds none, and the last index below the boundary. -/
theorem written_in_range_below_boundary :
    let rules : Rules := ⟨512, 0xBFB0, 0x10000, .reject⟩
    let table := ["512, /* (0x0200) */", "garbage", "114607, /* (0xFFFF) */"]
    let source := Source.ofBytes (Utf8.encode ("\n".intercalate table))
    let summary : Summary := ⟨3, 2, ⟨65535, "0xFFFF", false, "0x0000"⟩⟩
    rules.special < rules.boundary ∧ (run rules source Sink.perfect).result = .ok summary ∧
      summary.state.firstOverflow? = none ∧
      (∀ e ∈ (run rules source Sink.perfect).written, rules.InSpace e.index.toInt) ∧
      ∃ texts : List String, source.lines = texts.map .ok ∧
        ¬∃ text ∈ texts, ∃ e, rules.Rebases text e ∧ e.index ≠ rules.special ∧
          rules.offset.toInt + 2 * rules.boundary.toInt ≤ e.index.toInt := by
  intro rules table source summary
  have hspecial : rules.special < rules.boundary := by decide
  have hresult : (run rules source Sink.perfect).result = .ok summary := by decide +kernel
  obtain ⟨texts, hlines, -, -, -, hclean, hfar⟩ := written_in_range rfl hspecial hresult
  have hspace := hclean rfl
  exact ⟨hspecial, hresult, rfl, hspace, texts, hlines, hfar.mp hspace⟩

end Pass

end GlyphRebase
