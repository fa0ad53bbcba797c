import GlyphRebase.Proofs.AnyOutput

/-!
# Sinks at fault

What becomes of a pass if its sink takes a few bytes at a time, is interrupted, runs out of room or
cannot be flushed. Small portions and interruptions make no difference (`Pass.run_alike`). A sink
takes exactly the front part of the output for which it has room, and the pass ends at the first
entry of which some byte is left over (`Pass.faults_cut_output`).
-/

namespace GlyphRebase

/-! ### Carrying out a plan -/

/-- The bytes of the entries of steps. -/
def Step.allBytes (steps : List Step) : List UInt8 :=
  steps.flatMap fun step => step.state.entry.bytes

theorem Step.allBytes_cons (step : Step) (steps : List Step) :
    allBytes (step :: steps) = step.state.entry.bytes ++ allBytes steps := List.flatMap_cons ..

namespace Pass

variable (ending : Except PassError Summary) {s : Sink}

section
variable (hp : s.portion? ≠ some 0) {step : Step} (steps : List Step)
include hp

theorem carryOut_cons_of_hasRoom (h : s.HasRoom step.state.entry.bytes.length) :
    ∃ s', s.Took step.state.entry.bytes s' ∧
      carryOut .ofSink ending s (step :: steps) =
        (carryOut .ofSink ending s' steps).after step := by
  obtain ⟨htook, ⟨-, hok⟩ | ⟨hno, -⟩⟩ := s.writeAll_delivers hp step.state.entry.bytes
  · rw [Sink.fitting_of_hasRoom h] at htook
    refine ⟨_, htook, ?_⟩
    rw [carryOut]
    simp only [Output.ofSink]
    rw [show s.writeAll step.state.entry.bytes =
      (.ok (), (s.writeAll step.state.entry.bytes).2) from Prod.ext hok rfl]
  · exact absurd h hno

theorem carryOut_cons_of_short (h : ¬s.HasRoom step.state.entry.bytes.length) :
    ∃ s', s.Took (s.fitting step.state.entry.bytes) s' ∧
      carryOut .ofSink ending s (step :: steps) = .stopped (.write s.shortage) s' := by
  obtain ⟨htook, ⟨hroom, -⟩ | ⟨-, herror⟩⟩ := s.writeAll_delivers hp step.state.entry.bytes
  · exact absurd hroom h
  · refine ⟨_, htook, ?_⟩
    rw [carryOut]
    simp only [Output.ofSink]
    rw [show s.writeAll step.state.entry.bytes =
      (.error s.shortage, (s.writeAll step.state.entry.bytes).2) from Prod.ext herror rfl]

end

/-- With room for all entries all steps are carried out. -/
theorem carryOut_of_hasRoom (hp : s.portion? ≠ some 0) {steps : List Step}
    (hroom : s.HasRoom (Step.allBytes steps).length) :
    ∃ s', s.Took (Step.allBytes steps) s' ∧
      carryOut .ofSink ending s steps = (carryOut .ofSink ending s' []).afterAll steps := by
  induction steps generalizing s with
  | nil => exact ⟨s, .nil s, rfl⟩
  | cons step steps ih =>
    rw [Step.allBytes_cons, List.length_append] at hroom
    have hfirst := hroom.mono (Nat.le_add_right ..)
    obtain ⟨s₁, htook, hcarry⟩ := carryOut_cons_of_hasRoom ending hp steps hfirst
    obtain ⟨s₂, htooks, hcarries⟩ := ih (htook.portion ▸ hp) ((htook.hasRoom_iff hfirst).mpr hroom)
    refine ⟨s₂, ?_, ?_⟩
    · rw [Step.allBytes_cons]
      exact htook.trans htooks
    · rw [hcarry, hcarries, Course.afterAll_cons]

/-- Without room for all entries the steps are carried out whose entries fit, and the want of room
ends the pass. -/
theorem carryOut_of_short (hp : s.portion? ≠ some 0) {steps : List Step}
    (hroom : ¬s.HasRoom (Step.allBytes steps).length) :
    ∃ k s', k < steps.length ∧ s.HasRoom (Step.allBytes (steps.take k)).length ∧
      ¬s.HasRoom (Step.allBytes (steps.take (k + 1))).length ∧
      s.Took (s.fitting (Step.allBytes steps)) s' ∧
      carryOut .ofSink ending s steps =
        (Course.stopped (.write s.shortage) s').afterAll (steps.take k) := by
  induction steps generalizing s with
  | nil => exact absurd s.hasRoom_zero hroom
  | cons step steps ih =>
    rw [Step.allBytes_cons, List.length_append] at hroom
    by_cases hfirst : s.HasRoom step.state.entry.bytes.length
    · obtain ⟨s₁, htook, hcarry⟩ := carryOut_cons_of_hasRoom ending hp steps hfirst
      have hiff {n : Nat} := htook.hasRoom_iff hfirst (n := n)
      obtain ⟨k, s₂, hk, hfits, hnot, htooks, hcarries⟩ :=
        ih (htook.portion ▸ hp) (mt hiff.mp hroom)
      refine ⟨k + 1, s₂, Nat.succ_lt_succ hk, ?_, ?_, ?_, ?_⟩
      · rw [List.take_succ_cons, Step.allBytes_cons, List.length_append]
        exact hiff.mp hfits
      · rw [List.take_succ_cons, Step.allBytes_cons, List.length_append]
        exact mt hiff.mpr hnot
      · rw [Step.allBytes_cons, htook.fitting_append hfirst]
        exact htook.trans htooks
      · rw [hcarry, hcarries, htook.shortage, List.take_succ_cons, Course.afterAll_cons]
    · obtain ⟨s₁, htook, hcarry⟩ := carryOut_cons_of_short ending hp steps hfirst
      refine ⟨0, s₁, Nat.zero_lt_succ _, s.hasRoom_zero, ?_, ?_, hcarry⟩
      · rw [List.take_succ_cons, List.take_zero, Step.allBytes_cons, List.length_append]
        exact fun h => hfirst (h.mono (Nat.le_add_right ..))
      · rwa [Step.allBytes_cons, Sink.fitting_append_of_short hfirst]

/-- Sinks that differ in portions and interruptions alone come to the same. -/
theorem carryOut_alike {t : Sink} (h : s.Alike t) (steps : List Step) :
    let c := carryOut .ofSink ending s steps
    let d := carryOut .ofSink ending t steps
    d.result = c.result ∧ d.events = c.events ∧ c.output.Alike d.output := by
  induction steps generalizing s t with
  | nil =>
    cases ending with
    | error e => exact ⟨rfl, rfl, h⟩
    | ok summary =>
      obtain ⟨hresult, halike⟩ := h.flush
      simp only [carryOut, closeInto, Output.ofSink]
      rcases hs : s.flush with ⟨fault | _, s'⟩ <;> rcases ht : t.flush with ⟨fault' | _, t'⟩ <;>
        rw [hs, ht] at hresult halike <;> cases hresult
      · exact ⟨rfl, rfl, halike⟩
      · exact ⟨rfl, rfl, halike⟩
  | cons step steps ih =>
    obtain ⟨heq, halike⟩ := h.writeAll step.state.entry.bytes
    simp only [carryOut, Output.ofSink]
    rcases hs : s.writeAll step.state.entry.bytes with ⟨fault | _, s'⟩ <;>
      rcases ht : t.writeAll step.state.entry.bytes with ⟨fault' | _, t'⟩ <;>
      rw [hs, ht] at heq halike <;> cases heq
    · exact ⟨rfl, rfl, halike⟩
    · obtain ⟨hresult, hevents, houtput⟩ := ih halike
      exact ⟨hresult, congrArg (_ :: _ :: ·) hevents, houtput⟩

/-- What a pass does at its end, if the sink can be flushed. -/
def closing : Except PassError Summary → List Event
  | .ok summary => [.flushed, .finished summary]
  | .error _ => []

theorem closing_steps (ending : Except PassError Summary) :
    (closing ending).filterMap Event.step? = [] := by
  cases ending <;> rfl

theorem closing_written (ending : Except PassError Summary) :
    (closing ending).filterMap Event.entry? = [] := by
  cases ending <;> rfl

/-- A pass ends as it means to, unless it asks for a flush that fails. -/
theorem carryOut_nil (h : s.flushFails = true → ∃ e, ending = .error e) :
    carryOut .ofSink ending s [] =
      ⟨ending, closing ending,
        { s with flushes := s.flushes + (closing ending).count .flushed }⟩ := by
  cases ending with
  | error e => rfl
  | ok summary =>
    have hf : s.flushFails = false := by
      rw [Bool.eq_false_iff]
      intro hs
      obtain ⟨e, he⟩ := h hs
      cases he
    simp only [carryOut, closeInto, Output.ofSink, Sink.flush, hf]
    rfl

/-- A flush that fails matters only at the end of the input. -/
theorem flush_cases (s : Sink) (ending : Except PassError Summary) :
    (s.flushFails = true → ∃ e, ending = .error e) ∨
      s.flushFails = true ∧ ∃ summary, ending = .ok summary := by
  cases hs : s.flushFails with
  | false => exact .inl fun h => nomatch h
  | true =>
    cases ending with
    | error e => exact .inl fun _ => ⟨e, rfl⟩
    | ok summary => exact .inr ⟨rfl, summary, rfl⟩

theorem carryOut_nil_of_flushFails (hs : s.flushFails = true) (summary : Summary) :
    carryOut .ofSink (.ok summary) s [] =
      .stopped (.write Sink.flushFault) { s with flushes := s.flushes + 1 } := by
  simp only [carryOut, closeInto, Output.ofSink, Sink.flush, hs]
  rfl

end Pass

/-- The report of a pass that carried out the whole plan into the sink, to the end it means. -/
structure Plan.CarriedOut (plan : Plan) (s : Sink) (r : Report Sink) : Prop where
  result : r.result = plan.ending
  steps : r.steps = plan.steps
  written : r.written = plan.entries
  events : r.events = (plan.steps.flatMap fun step =>
    [.wrote step.state.entry, .announced step]) ++ Pass.closing plan.ending
  taken : r.sink.taken.toList = s.taken.toList ++ Step.allBytes plan.steps
  flushes : r.sink.flushes = s.flushes + (Pass.closing plan.ending).count .flushed

namespace Pass

/-! ### A pass into a sink -/

section
variable {rules : Rules} (hrules : rules.fault? = none) {source : Source} {s : Sink} {plan : Plan}
  (hplan : Plan.ofSource rules source = plan) (hp : s.portion? ≠ some 0)
include hrules hplan hp

/-- With room for everything, and unless a flush fails, a pass carries out its whole plan. -/
theorem run_of_hasRoom (hroom : s.HasRoom (Step.allBytes plan.steps).length)
    (hflush : s.flushFails = true → ∃ e, plan.ending = .error e) :
    plan.CarriedOut s (run rules source s) := by
  obtain ⟨s', htook, hcarry⟩ := carryOut_of_hasRoom plan.ending hp hroom
  rw [carryOut_nil _ (htook.flushFails ▸ hflush)] at hcarry
  have hcourse := run_carries_out hrules source s
  rw [hplan, hcarry] at hcourse
  obtain ⟨hresult, hsteps, hwritten, hevents, -, hsink⟩ := Report.of_course hcourse
  exact {
    result := hresult
    steps := by rw [hsteps, Course.steps, closing_steps, List.append_nil]
    written := by
      rw [hwritten, Course.written, closing_written, List.append_nil]
      rfl
    events := hevents
    taken := by
      rw [hsink]
      exact htook.taken
    flushes := by rw [hsink, htook.flushes] }

/-- With room for everything, a flush that fails is all that goes wrong. -/
theorem run_of_flushFails (hroom : s.HasRoom (Step.allBytes plan.steps).length)
    (hflush : s.flushFails = true) {summary : Summary} (hending : plan.ending = .ok summary) :
    (run rules source s).result = .error (.write Sink.flushFault) ∧
      (run rules source s).steps = plan.steps ∧ (run rules source s).written = plan.entries ∧
      (run rules source s).finished? = none ∧
      (run rules source s).sink.taken.toList = s.taken.toList ++ Step.allBytes plan.steps ∧
      (run rules source s).sink.flushes = s.flushes + 1 := by
  obtain ⟨s', htook, hcarry⟩ := carryOut_of_hasRoom plan.ending hp hroom
  rw [hending, carryOut_nil_of_flushFails (htook.flushFails.trans hflush), ← hending] at hcarry
  have hcourse := run_carries_out hrules source s
  rw [hplan, hcarry] at hcourse
  obtain ⟨hresult, hsteps, hwritten, -, hfinished, hsink⟩ := Report.of_course hcourse
  refine ⟨hresult, by simpa using hsteps, by simpa [Plan.entries] using hwritten, hfinished, ?_,
    ?_⟩
  · rw [hsink]
    exact htook.taken
  · rw [hsink, ← htook.flushes]
    rfl

/-- Without room for everything, the pass ends at the first entry that does not fit. -/
theorem run_of_short (hroom : ¬s.HasRoom (Step.allBytes plan.steps).length) :
    (run rules source s).result = .error (.write s.shortage) ∧
      (∃ k < plan.steps.length,
        s.HasRoom (Step.allBytes (plan.steps.take k)).length ∧
        ¬s.HasRoom (Step.allBytes (plan.steps.take (k + 1))).length ∧
        (run rules source s).steps = plan.steps.take k ∧
        (run rules source s).written = plan.entries.take k) ∧
      (run rules source s).finished? = none ∧
      (run rules source s).sink.taken.toList =
        s.taken.toList ++ s.fitting (Step.allBytes plan.steps) ∧
      (run rules source s).sink.flushes = s.flushes := by
  obtain ⟨k, s', hk, hfits, hnot, htook, hcarry⟩ :=
    carryOut_of_short plan.ending hp hroom
  have hcourse := run_carries_out hrules source s
  rw [hplan, hcarry] at hcourse
  obtain ⟨hresult, hsteps, hwritten, -, hfinished, hsink⟩ := Report.of_course hcourse
  refine ⟨hresult, ⟨k, hk, hfits, hnot, by simpa using hsteps, ?_⟩, hfinished, ?_, ?_⟩
  · rw [hwritten, List.map_take, Course.written_stopped, List.append_nil]
    rfl
  · rw [hsink]
    exact htook.taken
  · rw [hsink]
    exact htook.flushes

/-- What the sink takes is the front part of the output for which it has room. -/
theorem run_taken :
    (run rules source s).sink.taken.toList =
      s.taken.toList ++ s.fitting (Step.allBytes plan.steps) := by
  by_cases hroom : s.HasRoom (Step.allBytes plan.steps).length
  · rw [Sink.fitting_of_hasRoom hroom]
    rcases flush_cases s plan.ending with hflush | ⟨hflush, summary, hending⟩
    · exact (run_of_hasRoom hrules hplan hp hroom hflush).taken
    · obtain ⟨-, -, -, -, htaken, -⟩ := run_of_flushFails hrules hplan hp hroom hflush hending
      exact htaken
  · obtain ⟨-, -, -, htaken, -⟩ := run_of_short hrules hplan hp hroom
    exact htaken

end

/-- Passes into sinks that differ in portions and interruptions alone do the same. -/
theorem run_alike {rules : Rules} (hrules : rules.fault? = none) (source : Source) {s t : Sink}
    (h : s.Alike t) :
    let r := run rules source s
    let r' := run rules source t
    r'.result = r.result ∧ r'.events = r.events ∧ r.sink.Alike r'.sink := by
  have hcourses := carryOut_alike (Plan.ofSource rules source).ending h
    (Plan.ofSource rules source).steps
  rwa [← run_carries_out hrules, ← run_carries_out hrules] at hcourses

/-- **What a sink at fault makes of a pass**, compared with a sink without a fault, under rules that
can be applied and over any source. The sink takes exactly the front part of the output for which it
has room. If it has room for all, then all entries are written and announced, and the pass ends as
it would; only a flush that fails turns an end without an error into one with the fault of the
flush, and then no end is announced. If it has not, the pass ends with the want of room; exactly
those entries were written and announced that have room as a whole, and the sink was not flushed.
How many bytes the sink takes at a time, and how often it is interrupted, makes no difference. -/
theorem faults_cut_output {rules : Rules} (hrules : rules.fault? = none) (source : Source)
    {sink : Sink} (hportion : sink.portion? ≠ some 0) :
    let p := run rules source Sink.perfect
    let r := run rules source sink
    let bytes := p.written.flatMap Entry.bytes
    p.sink.taken.toList = bytes ∧
      r.sink.taken.toList = sink.taken.toList ++ sink.fitting bytes ∧
      (sink.HasRoom bytes.length →
        r.steps = p.steps ∧ r.written = p.written ∧
        ((sink.flushFails = true → ∃ e, p.result = .error e) →
          r.result = p.result ∧ r.events = p.events ∧
          r.sink.flushes = sink.flushes + p.sink.flushes) ∧
        (∀ summary, sink.flushFails = true → p.result = .ok summary →
          r.result = .error (.write Sink.flushFault) ∧ r.finished? = none ∧
          r.sink.flushes = sink.flushes + 1)) ∧
      (¬sink.HasRoom bytes.length →
        r.result = .error (.write sink.shortage) ∧
        sink.shortage.kind = (if sink.stallsWhenFull then .writeZero else .other) ∧
        (∃ k < p.steps.length,
          sink.HasRoom ((p.written.take k).flatMap Entry.bytes).length ∧
          ¬sink.HasRoom ((p.written.take (k + 1)).flatMap Entry.bytes).length ∧
          r.steps = p.steps.take k ∧ r.written = p.written.take k) ∧
        r.finished? = none ∧ r.sink.flushes = sink.flushes) ∧
      ∀ portion? interrupts, portion? ≠ some 0 →
        let r' := run rules source { sink with portion? := portion?, interrupts := interrupts }
        r'.result = r.result ∧ r'.events = r.events ∧ r'.sink.taken = r.sink.taken ∧
          r'.sink.flushes = r.sink.flushes := by
  intro p r bytes
  obtain ⟨plan, hplan⟩ : ∃ plan, Plan.ofSource rules source = plan := ⟨_, rfl⟩
  have hentries (entries : List Step) :
      (entries.map fun step => step.state.entry).flatMap Entry.bytes = Step.allBytes entries :=
    List.flatMap_map ..
  have hp : plan.CarriedOut .perfect p :=
    run_of_hasRoom hrules hplan (by decide) (fun _ h => nomatch h) (fun h => nomatch h)
  have hbytes : bytes = Step.allBytes plan.steps := by
    rw [← hentries]
    exact congrArg (List.flatMap Entry.bytes) hp.written
  have htake (k : Nat) :
      (p.written.take k).flatMap Entry.bytes = Step.allBytes (plan.steps.take k) := by
    rw [hp.written, Plan.entries, ← List.map_take, hentries]
  rw [hbytes]
  refine ⟨hp.taken, ?_, ?_, ?_, ?_⟩
  · exact run_taken hrules hplan hportion
  · intro hroom
    rcases flush_cases sink plan.ending with hflush | ⟨hflush, summary, hending⟩
    · have hr := run_of_hasRoom hrules hplan hportion hroom hflush
      refine ⟨hr.steps.trans hp.steps.symm, hr.written.trans hp.written.symm, fun _ => ?_,
        fun summary hfails hok => ?_⟩
      · refine ⟨hr.result.trans hp.result.symm, hr.events.trans hp.events.symm, ?_⟩
        rw [hr.flushes, hp.flushes, show Sink.perfect.flushes = 0 from rfl, Nat.zero_add]
      · obtain ⟨e, he⟩ := hflush hfails
        rw [hp.result, he] at hok
        cases hok
    · obtain ⟨hresult, hsteps, hwritten, hfinished, -, hflushes⟩ :=
        run_of_flushFails hrules hplan hportion hroom hflush hending
      refine ⟨hsteps.trans hp.steps.symm, hwritten.trans hp.written.symm, fun herror => ?_,
        fun _ _ _ => ⟨hresult, hfinished, hflushes⟩⟩
      obtain ⟨e, he⟩ := herror hflush
      rw [hp.result, hending] at he
      cases he
  · intro hroom
    obtain ⟨hresult, ⟨k, hk, hfits, hnot, hsteps, hwritten⟩, hfinished, htaken, hflushes⟩ :=
      run_of_short hrules hplan hportion hroom
    refine ⟨hresult, sink.shortage_kind, ⟨k, ?_, ?_, ?_, ?_, ?_⟩, hfinished, hflushes⟩
    · rwa [hp.steps]
    · rwa [htake]
    · rwa [htake]
    · rwa [hp.steps]
    · rwa [hp.written]
  · intro portion? interrupts hportion' r'
    have halike : sink.Alike { sink with portion? := portion?, interrupts := interrupts } :=
      ⟨rfl, rfl, rfl, rfl, rfl, hportion, hportion'⟩
    obtain ⟨hresult, hevents, hsink⟩ := run_alike hrules source halike
    exact ⟨hresult, hevents, hsink.taken, hsink.flushes⟩

/-- A sink that is interrupted twice and takes three bytes at a time has room up to the middle of
the second entry. -/
theorem faults_cut_output_inside_entry :
    let source := Source.ofBytes (Utf8.encode "49200, /* (0xC030) */\n512, /* (0x0200) */\n")
    let sink : Sink := { room? := some 25, portion? := some 3, interrupts := 2 }
    let p := run .standard source Sink.perfect
    let r := run .standard source sink
    let bytes := p.written.flatMap Entry.bytes
    Rules.standard.fault? = none ∧ sink.portion? ≠ some 0 ∧ ¬sink.HasRoom bytes.length ∧
      p.result = .ok ⟨2, 2, ⟨512, "0x0200", false, "0x0000"⟩⟩ ∧
      r.result = .error (.write Sink.fullFault) ∧ r.finished? = none ∧ r.sink.flushes = 0 ∧
      r.sink.taken.toList = Utf8.encode "  128,\t/* 0xC030 */\n  512" ∧
      r.steps.map Step.count = [1] ∧
      (run .standard source { sink with portion? := none, interrupts := 0 }).events = r.events := by
  intro source sink p r bytes
  have hwritten : p.written = [⟨128, "0xC030"⟩, ⟨512, "0x0200"⟩] := by decide +kernel
  have hsteps : p.steps.map Step.count = [1, 2] := by decide +kernel
  have hrules : Rules.standard.fault? = none := rfl
  have hportion : sink.portion? ≠ some 0 := by decide
  have hbytes : bytes = Utf8.encode "  128,\t/* 0xC030 */\n  512,\t/* 0x0200 */\n" := by
    simp only [bytes, hwritten]
    decide +kernel
  have hroom : ¬sink.HasRoom bytes.length := by
    rw [hbytes]
    exact fun h => absurd (h 25 rfl) (by decide +kernel)
  obtain ⟨-, htaken, -, hshort, halike⟩ := faults_cut_output hrules source hportion
  obtain ⟨hresult, -, ⟨k, hk, hfits, hnot, hr, -⟩, hfinished, hflushes⟩ := hshort hroom
  obtain ⟨-, hevents, -, -⟩ := halike none 0 (by decide)
  -- the first entry has room, the second has not
  have hone : k = 1 := by
    have hlen : p.steps.length = 2 := by rw [← List.length_map (f := Step.count), hsteps]; rfl
    match k with
    | 0 => exact absurd (fun room hroom => by cases hroom; rw [hwritten]; decide +kernel) hnot
    | 1 => rfl
    | k + 2 => exact absurd (hlen ▸ hk : k + 2 < 2) (by omega)
  subst hone
  refine ⟨hrules, hportion, hroom, by decide +kernel, hresult, hfinished, hflushes, ?_, ?_, hevents⟩
  · refine htaken.trans ?_
    rw [show (run .standard source Sink.perfect).written.flatMap Entry.bytes = _ from hbytes]
    decide +kernel
  · rw [hr, List.map_take, hsteps]
    rfl

end Pass

end GlyphRebase
