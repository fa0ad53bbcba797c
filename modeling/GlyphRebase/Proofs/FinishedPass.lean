import GlyphRebase.Proofs.AnyOutput

/-!
# Passes that come to their end

Whatever it writes to, a pass that ends without an error has read nothing but texts, of which the
rules reject none, has written all their entries, and has flushed (`Reference.Finishes`,
`Pass.run_eq_ok`). So two such passes over the same lines have done the same, and come to the same
summary (`Pass.run_of_finishes`). A sink that takes everything lets the pass come to its end
(`Pass.run_of_lines`, `Pass.run_eq_ok_iff_of_lines`).
-/

namespace GlyphRebase

open Reference

/-- Lines that are all texts are the lines of just these texts. -/
theorem texts_unique {items : List (Except StreamFault String)} {texts texts' : List String}
    (h : items = texts.map .ok) (h' : items = texts'.map .ok) : texts = texts' :=
  List.map_injective_iff.mpr (fun _ _ => Except.ok.inj) (h.symm.trans h')

namespace Reference

/-- None of the texts is rejected, their entries are written, and what is written is flushed. -/
structure Finishes {σ : Type} [Writable σ] (rules : Rules) (s : State) (w : σ)
    (texts : List String) (w' : σ) : Prop where
  accepted : Accepted rules s texts
  written : ∃ w₁, Writes w (outputEntries rules s texts) w₁ ∧ Writable.flush w₁ = (.ok (), w')

namespace Finishes

variable {σ : Type} [Writable σ] {rules : Rules} {s : State} {texts : List String}

theorem nil {w w' : σ} (h : Writable.flush w = (.ok (), w')) : Finishes rules s w [] w' :=
  ⟨.nil, w, .nil w, h⟩

/-- One more text in front. -/
theorem cons {w w₁ w' : σ} {line : String} (hline : ¬Rejected rules s line)
    (hfirst : Writable.writeAll w (s.advance line rules).1.entry.bytes = (.ok (), w₁))
    (h : Finishes rules (s.advance line rules).1 w₁ texts w') :
    Finishes rules s w (line :: texts) w' := by
  obtain ⟨haccepted, w₂, hwrites, hflush⟩ := h
  exact ⟨accepted_cons_iff.mpr ⟨hline, haccepted⟩, w₂, .cons hfirst hwrites, hflush⟩

/-- A sink has then taken all the entries. -/
theorem taken {w w' : Sink} (h : Finishes rules s w texts w') :
    w'.taken.toList = w.taken.toList ++ output rules s texts := by
  obtain ⟨-, w₁, hwrites, hflush⟩ := h
  have htaken : w₁.taken.toList = w.taken.toList ++ output rules s texts := by
    rw [output_eq_flatMap]
    exact Output.answers_ofSink.taken_of_writes hwrites
  rw [← htaken, ← show w₁.flush.2 = w' from congrArg Prod.snd hflush, Sink.flush]

/-- A sink that takes everything takes the entries of texts that are not rejected. -/
theorem of_accepting {w : Sink} (haccepted : Accepted rules s texts) (hw : w.Accepting) :
    ∃ w', Finishes rules s w texts w' := by
  obtain ⟨w₁, hwrites, hacc, -⟩ := hw.writes (outputEntries rules s texts)
  exact ⟨_, haccepted, w₁, hwrites, hacc.flush_eq⟩

end Finishes

end Reference

namespace Pass

section

variable {σ : Type} [Writable σ] {rules : Rules} {before : Summary} {source : Source} {w w' : σ}
  {texts : List String} {s : Summary}

/-- A line that does not end the pass is not rejected, and its entry is written in full. -/
theorem process_eq_ok {now : Summary} {line : String}
    (h : process rules before line w = (.ok now, w')) :
    ¬Rejected rules before.state line ∧ now = before.advance line rules ∧
      Writable.writeAll w (before.state.advance line rules).1.entry.bytes = (.ok (), w') := by
  by_cases hr : Rejected rules before.state line
  · rw [process_of_rejected before hr] at h
    cases h
  · rcases hw : Writable.writeAll w (before.state.advance line rules).1.entry.bytes with
      ⟨fault | _, w₁⟩
    · rw [process_of_unwritten hr hw] at h
      cases h
    · rw [process_of_written hr hw] at h
      cases h
      exact ⟨hr, rfl, rfl⟩

theorem close_eq_ok (h : (close before source w).result = .ok s) :
    s = before ∧ Writable.flush w = (.ok (), (close before source w).sink) := by
  rw [close] at h ⊢
  rcases hflush : Writable.flush w with ⟨fault | _, w₁⟩
  · rw [hflush] at h
    cases h
  · rw [hflush] at h
    cases h
    exact ⟨rfl, rfl⟩

/-- Lines that a pass came to the end of are texts, and it has finished them. -/
theorem overLines_eq_ok {items : List (Except StreamFault String)}
    (h : (overLines rules before w items).result = .ok s) :
    ∃ texts, items = texts.map .ok ∧ s = before.through rules texts ∧
      Finishes rules before.state w texts (overLines rules before w items).sink := by
  induction items generalizing before w with
  | nil =>
    obtain ⟨rfl, hflush⟩ := close_eq_ok h
    exact ⟨[], rfl, rfl, .nil hflush⟩
  | cons item items ih =>
    cases item with
    | error fault => cases h
    | ok line =>
      rcases hp : process rules before line w with ⟨e | now, w₁⟩
      · rw [overLines, hp] at h
        cases h
      · rw [overLines, hp] at h ⊢
        obtain ⟨hline, rfl, hfirst⟩ := process_eq_ok hp
        obtain ⟨texts, rfl, rfl, htexts⟩ := ih h
        rw [Summary.advance_state] at htexts
        exact ⟨line :: texts, rfl, rfl, htexts.cons hline hfirst⟩

/-- **A pass that ends without an error** has read texts alone, and has finished them. -/
theorem run_eq_ok (h : (run rules source w).result = .ok s) :
    rules.fault? = none ∧ ∃ texts, source.lines = texts.map .ok ∧
      s = summary rules .initial texts ∧
      Finishes rules .initial w texts (run rules source w).sink := by
  cases hrules : rules.fault? with
  | some reason =>
    simp only [run, hrules] at h
    cases h
  | none =>
    rw [run_result_eq hrules] at h
    rw [run_sink_eq hrules]
    obtain ⟨texts, htexts, rfl, hfinishes⟩ := overLines_eq_ok h
    exact ⟨rfl, texts, htexts, Summary.through_initial rules texts, hfinishes⟩

/-- A pass over texts that it can finish does all that there is to do for them. -/
theorem run_of_finishes (hrules : rules.fault? = none) (hlines : source.lines = texts.map .ok)
    (h : Finishes rules .initial w texts w') :
    (run rules source w).seen =
      ⟨.ok (summary rules .initial texts), events rules .initial 0 texts ++
        [.flushed, .finished (summary rules .initial texts)], w'⟩ := by
  obtain ⟨haccepted, w₁, hwrites, hflush⟩ := h
  have hover := overLines_of_writes .initial haccepted hwrites []
  rw [List.append_nil, overLines, close, hflush, Summary.through_initial] at hover
  rw [run_eq_overLines hrules, hlines, hover]
  rfl

end

/-- A pass over texts of which none is rejected, into a sink that takes everything, comes to their
end. -/
theorem run_of_lines {rules : Rules} {source : Source} {sink : Sink} {texts : List String}
    (hrules : rules.fault? = none) (hlines : source.lines = texts.map .ok)
    (haccepted : Accepted rules .initial texts) (hsink : sink.Accepting) :
    (run rules source sink).result = .ok (summary rules .initial texts) ∧
      (run rules source sink).sink.taken.toList =
        sink.taken.toList ++ output rules .initial texts := by
  obtain ⟨sink', hfinishes⟩ := Finishes.of_accepting haccepted hsink
  have hseen := run_of_finishes hrules hlines hfinishes
  refine ⟨congrArg Seen.result hseen, ?_⟩
  rw [show (run rules source sink).sink = sink' from congrArg Seen.sink hseen, hfinishes.taken]

/-- A pass over texts, into a sink that takes everything, comes to its end just if none of them is
rejected. -/
theorem run_eq_ok_iff_of_lines {rules : Rules} {source : Source} {sink : Sink}
    {texts : List String} {s : Summary} (hrules : rules.fault? = none)
    (hlines : source.lines = texts.map .ok) (hsink : sink.Accepting) :
    (run rules source sink).result = .ok s ↔
      Accepted rules .initial texts ∧ s = summary rules .initial texts := by
  constructor
  · intro h
    obtain ⟨-, texts', htexts, rfl, hfinishes⟩ := run_eq_ok h
    obtain rfl := texts_unique htexts hlines
    exact ⟨hfinishes.accepted, rfl⟩
  · rintro ⟨haccepted, rfl⟩
    exact (run_of_lines hrules hlines haccepted hsink).1

end Pass

end GlyphRebase
