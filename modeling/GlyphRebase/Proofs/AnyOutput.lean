import GlyphRebase.Proofs.Reference

/-!
# The pass into any output

A pass asks two things of what it writes to: to take all of some bytes, and to be flushed. It goes
the same way whatever answers these questions, so here it is told for anything that can answer them
and keeps account of what it took (`Output`). A sink is one example: `Pass.run_course` says that the
pass into a sink is `Pass.runInto` of it.

What a pass means to write, and how it then means to end, does not depend on the output: it is the
`Plan` of the rules and the lines. The output decides how much of the plan is carried out
(`Pass.into_eq_carryOut`).
-/

namespace GlyphRebase

open Reference

/-- The entry that was written. -/
def Event.entry? : Event → Option Entry
  | .wrote entry => some entry
  | _ => none

/-- The entries that were written. -/
def Report.written {σ : Type} (r : Report σ) : List Entry := r.events.filterMap Event.entry?

/-! ### Outputs -/

/-- What a pass can write to. -/
structure Output (σ : Type) where
  /-- The bytes taken so far. -/
  taken : σ → List UInt8
  /-- Takes all of some bytes, or fails after it has taken some. -/
  writeAll : σ → List UInt8 → Except StreamFault Unit × σ
  /-- Passes on what was taken, or fails. -/
  flush : σ → Except StreamFault Unit × σ
  /-- Bytes that are written without an error are taken, all of them. -/
  taken_of_writeAll : ∀ {s s' : σ} {bytes : List UInt8},
    writeAll s bytes = (.ok (), s') → taken s' = taken s ++ bytes

/-- A sink is an output. -/
def Output.ofSink : Output Sink :=
  ⟨fun s => s.taken.toList, Sink.writeAll, Sink.flush, Sink.taken_of_writeAll⟩

/-- The output answers as what a pass writes to. -/
structure Output.Answers {σ : Type} [Writable σ] (o : Output σ) : Prop where
  writeAll : o.writeAll = Writable.writeAll
  flush : o.flush = Writable.flush

theorem Output.answers_ofSink : Output.ofSink.Answers := ⟨rfl, rfl⟩

/-- Entries that are written without an error are taken, all of them. -/
theorem Output.Answers.taken_of_writes {σ : Type} [Writable σ] {o : Output σ} (ho : o.Answers)
    {w w' : σ} {entries : List Entry} (h : Writes w entries w') :
    o.taken w' = o.taken w ++ entries.flatMap Entry.bytes := by
  induction h with
  | nil => exact (List.append_nil _).symm
  | cons hfirst _ ih =>
    rw [← ho.writeAll] at hfirst
    rw [ih, o.taken_of_writeAll hfirst, List.flatMap_cons, List.append_assoc]

/-- The output after entries were written to it, one after the other. -/
def Output.writeEach {σ : Type} (o : Output σ) (s : σ) (entries : List Entry) : σ :=
  entries.foldl (fun s e => (o.writeAll s e.bytes).2) s

/-- The course of a pass into an output. -/
structure Course (σ : Type) where
  /-- How it ended. -/
  result : Except PassError Summary
  /-- What it did, in order. -/
  events : List Event
  /-- What became of the output. -/
  output : σ

namespace Course

variable {σ : Type}

/-- The course of a pass that ends at once. -/
def stopped (e : PassError) (s : σ) : Course σ := ⟨.error e, [], s⟩

/-- The course of a pass that wrote and announced the entry of a line, and went on. -/
def after (step : Step) (c : Course σ) : Course σ :=
  { c with events := .wrote step.state.entry :: .announced step :: c.events }

/-- The course of a pass that wrote and announced the entries of some lines, and went on. -/
def afterAll (steps : List Step) (c : Course σ) : Course σ := steps.foldr after c

/-- The lines that were announced. -/
def steps (c : Course σ) : List Step := c.events.filterMap Event.step?

/-- The entries that were written. -/
def written (c : Course σ) : List Entry := c.events.filterMap Event.entry?

/-- The summary that was announced at the end. -/
def finished? (c : Course σ) : Option Summary := c.events.findSome? Event.summary?

section
variable (e : PassError) (s : σ) (step : Step) (c : Course σ)

@[simp] theorem result_stopped : (stopped e s).result = .error e := rfl

@[simp] theorem steps_stopped : (stopped e s).steps = [] := rfl

@[simp] theorem written_stopped : (stopped e s).written = [] := rfl

@[simp] theorem finished?_stopped : (stopped e s).finished? = none := rfl

@[simp] theorem output_stopped : (stopped e s).output = s := rfl

@[simp] theorem result_after : (c.after step).result = c.result := rfl

@[simp] theorem steps_after : (c.after step).steps = step :: c.steps := rfl

@[simp] theorem written_after : (c.after step).written = step.state.entry :: c.written := rfl

@[simp] theorem finished?_after : (c.after step).finished? = c.finished? := rfl

@[simp] theorem output_after : (c.after step).output = c.output := rfl

end

section
variable (steps : List Step) (c : Course σ)

@[simp] theorem afterAll_nil : c.afterAll [] = c := rfl

@[simp] theorem afterAll_cons (step : Step) :
    c.afterAll (step :: steps) = (c.afterAll steps).after step := rfl

@[simp] theorem result_afterAll : (c.afterAll steps).result = c.result := by
  induction steps with
  | nil => rfl
  | cons step steps ih => simp [ih]

@[simp] theorem steps_afterAll : (c.afterAll steps).steps = steps ++ c.steps := by
  induction steps with
  | nil => rfl
  | cons step steps ih => simp [ih]

@[simp] theorem written_afterAll :
    (c.afterAll steps).written = (steps.map fun step => step.state.entry) ++ c.written := by
  induction steps with
  | nil => rfl
  | cons step steps ih => simp [ih]

@[simp] theorem events_afterAll :
    (c.afterAll steps).events =
      (steps.flatMap fun step => [.wrote step.state.entry, .announced step]) ++ c.events := by
  induction steps with
  | nil => rfl
  | cons step steps ih =>
    rw [afterAll_cons, after, ih]
    rfl

@[simp] theorem finished?_afterAll : (c.afterAll steps).finished? = c.finished? := by
  induction steps with
  | nil => rfl
  | cons step steps ih => simp [ih]

@[simp] theorem output_afterAll : (c.afterAll steps).output = c.output := by
  induction steps with
  | nil => rfl
  | cons step steps ih => simp [ih]

end

end Course

/-- What is seen of a pass, as a course. -/
def Seen.course {σ : Type} (s : Seen σ) : Course σ := ⟨s.result, s.events, s.sink⟩

/-- The course of a reported pass. -/
def Report.course {σ : Type} (r : Report σ) : Course σ := r.seen.course

/-- What is reported of a pass whose course is known from some lines on. -/
theorem Report.of_course {σ : Type} {r : Report σ} {steps : List Step} {c : Course σ}
    (h : r.course = c.afterAll steps) :
    r.result = c.result ∧ r.steps = steps ++ c.steps ∧
      r.written = (steps.map fun step => step.state.entry) ++ c.written ∧
      r.events = (steps.flatMap fun step => [.wrote step.state.entry, .announced step]) ++
        c.events ∧
      r.finished? = c.finished? ∧ r.sink = c.output := by
  refine ⟨?_, ?_, ?_, ?_, ?_, ?_⟩
  · exact (congrArg Course.result h).trans (Course.result_afterAll ..)
  · exact (congrArg Course.steps h).trans (Course.steps_afterAll ..)
  · exact (congrArg Course.written h).trans (Course.written_afterAll ..)
  · exact (congrArg Course.events h).trans (Course.events_afterAll ..)
  · exact (congrArg Course.finished? h).trans (Course.finished?_afterAll ..)
  · exact (congrArg Course.output h).trans (Course.output_afterAll ..)

/-! ### The pass -/

namespace Pass

variable {σ : Type} (o : Output σ) (rules : Rules)

/-- The end of the input: the output is flushed. -/
def closeInto (before : Summary) (s : σ) : Course σ :=
  match o.flush s with
  | (.ok (), s) => ⟨.ok before, [.flushed, .finished before], s⟩
  | (.error fault, s) => .stopped (.write fault) s

/-- The pass over lines, from a summary on. -/
def into (before : Summary) (s : σ) : List (Except StreamFault String) → Course σ
  | [] => closeInto o before s
  | .error fault :: _ => .stopped (.read fault) s
  | .ok line :: items =>
    let now := before.advance line rules
    if before.rejects line rules then .stopped (.negativeIndex now.lines now.state.index) s
    else
      match o.writeAll s now.state.entry.bytes with
      | (.ok (), s) => (into now s items).after ⟨now.lines, now.state⟩
      | (.error fault, s) => .stopped (.write fault) s

/-- The pass over a source. -/
def runInto (source : Source) (s : σ) : Course σ :=
  match rules.fault? with
  | some reason => .stopped (.invalidRules reason) s
  | none => into o rules .initial s source.lines

section

variable [Writable σ] {o} (ho : o.Answers)
include ho

theorem close_course (before : Summary) (source : Source) (w : σ) :
    (close before source w).course = closeInto o before w := by
  rw [close, closeInto, ho.flush]
  rcases Writable.flush w with ⟨_ | _, _⟩ <;> rfl

theorem overLines_course (before : Summary) (w : σ) (items : List (Except StreamFault String)) :
    (overLines rules before w items).course = into o rules before w items := by
  induction items generalizing before w with
  | nil => exact close_course ho before _ w
  | cons item items ih =>
    cases item with
    | error fault => rfl
    | ok line =>
      rw [overLines, into, process]
      by_cases hr : before.rejects line rules = true
      · simp only [if_pos hr]
        rfl
      · simp only [if_neg hr, ho.writeAll, Entry.bytes]
        rcases Writable.writeAll w (Utf8.encode (before.advance line rules).state.entry.render) with
          ⟨_ | _, w'⟩
        · rfl
        · exact congrArg (Course.after _) (ih _ w')

/-- A pass takes the course of the pass into the output that answers as what it writes to. -/
theorem run_course_of_answers (source : Source) (w : σ) :
    (run rules source w).course = runInto o rules source w := by
  rw [runInto]
  cases hrules : rules.fault? with
  | some reason =>
    rw [run, hrules]
    rfl
  | none =>
    rw [Report.course, run_eq_overLines hrules source w]
    exact overLines_course rules ho .initial w source.lines

end

/-- **The pass into a sink** takes the course of the pass into the output that the sink is. -/
theorem run_course (source : Source) (sink : Sink) :
    (run rules source sink).course = runInto .ofSink rules source sink :=
  run_course_of_answers rules Output.answers_ofSink source sink

variable {rules}

theorem closeInto_finished? (before : Summary) (s : σ) :
    (closeInto o before s).finished? = (closeInto o before s).result.toOption := by
  rw [closeInto]
  rcases o.flush s with ⟨_ | _, _⟩ <;> rfl

theorem into_finished? (before : Summary) (s : σ) (items : List (Except StreamFault String)) :
    (into o rules before s items).finished? = (into o rules before s items).result.toOption := by
  fun_induction into o rules before s items with
  | case1 before s => exact closeInto_finished? o before s
  | case2 | case3 | case5 => rfl
  | case4 before s line items now hr s' hw ih => exact ih

/-- The end of a pass is announced exactly if it ends without an error, and with the summary that
it ends with. -/
theorem runInto_finished? (rules : Rules) (source : Source) (s : σ) :
    (runInto o rules source s).finished? = (runInto o rules source s).result.toOption := by
  rw [runInto]
  cases rules.fault? with
  | some reason => rfl
  | none => exact into_finished? o .initial s source.lines

/-- A pass over texts that comes to their end has written an entry for each of them. -/
theorem into_written {before summary : Summary} {s : σ} {texts : List String}
    (h : (into o rules before s (texts.map .ok)).result = .ok summary) :
    (into o rules before s (texts.map .ok)).written =
      (states rules before.state texts).map State.entry := by
  induction texts generalizing before s with
  | nil =>
    rw [List.map_nil, into, closeInto] at h ⊢
    rcases hflush : o.flush s with ⟨fault | _, s'⟩
    · rw [hflush] at h
      cases h
    · rfl
  | cons line texts ih =>
    rw [List.map_cons, into] at h ⊢
    by_cases hr : before.rejects line rules = true
    · simp only [if_pos hr] at h
      cases h
    · simp only [if_neg hr] at h ⊢
      rcases hw : o.writeAll s (before.advance line rules).state.entry.bytes with ⟨fault | _, s'⟩
      · rw [hw] at h
        cases h
      · rw [hw] at h
        simp only [Course.written_after, ih h, Summary.advance_state]
        rfl

theorem run_written {source : Source} {sink : Sink} {texts : List String} {summary : Summary}
    (hrules : rules.fault? = none) (hlines : source.lines = texts.map .ok)
    (h : (run rules source sink).result = .ok summary) :
    (run rules source sink).written = (states rules .initial texts).map State.entry := by
  have hcourse := run_course rules source sink
  rw [runInto, hrules, hlines] at hcourse
  have hresult := (congrArg Course.result hcourse).symm.trans h
  exact (congrArg Course.written hcourse).trans (into_written .ofSink hresult)

end Pass

/-! ### What a pass means to do -/

/-- What a pass means to write, whatever the output. -/
structure Plan where
  /-- The entries to write, each with its announcement. -/
  steps : List Step
  /-- How the pass means to end after them. -/
  ending : Except PassError Summary

namespace Plan

/-- The plan that begins with one more entry. -/
def after (step : Step) (p : Plan) : Plan := { p with steps := step :: p.steps }

/-- The plan for lines, from a summary on. -/
def ofLines (rules : Rules) (before : Summary) : List (Except StreamFault String) → Plan
  | [] => ⟨[], .ok before⟩
  | .error fault :: _ => ⟨[], .error (.read fault)⟩
  | .ok line :: items =>
    let now := before.advance line rules
    if before.rejects line rules then ⟨[], .error (.negativeIndex now.lines now.state.index)⟩
    else (ofLines rules now items).after ⟨now.lines, now.state⟩

/-- The entries of the plan. -/
def entries (p : Plan) : List Entry := p.steps.map fun step => step.state.entry

/-- The plan for a source. -/
def ofSource (rules : Rules) (source : Source) : Plan := ofLines rules .initial source.lines

end Plan

namespace Pass

variable {σ : Type} (o : Output σ)

/-- The course of carrying out steps, and then an ending, with an output. -/
def carryOut (ending : Except PassError Summary) (s : σ) : List Step → Course σ
  | [] =>
    match ending with
    | .ok summary => closeInto o summary s
    | .error e => .stopped e s
  | step :: steps =>
    match o.writeAll s step.state.entry.bytes with
    | (.ok (), s) => (carryOut ending s steps).after step
    | (.error fault, s) => .stopped (.write fault) s

/-- **A pass carries out its plan**, as far as the output lets it. -/
theorem into_eq_carryOut (rules : Rules) (before : Summary) (s : σ)
    (items : List (Except StreamFault String)) :
    into o rules before s items =
      carryOut o (Plan.ofLines rules before items).ending s
        (Plan.ofLines rules before items).steps := by
  induction items generalizing before s with
  | nil => rfl
  | cons item items ih =>
    cases item with
    | error fault => rfl
    | ok line =>
      rw [into, Plan.ofLines]
      by_cases hr : before.rejects line rules = true
      · simp only [if_pos hr]
        rfl
      · simp only [if_neg hr, Plan.after, carryOut, ih]

theorem run_carries_out {rules : Rules} (hrules : rules.fault? = none) (source : Source)
    (sink : Sink) :
    (run rules source sink).course =
      carryOut .ofSink (Plan.ofSource rules source).ending sink
        (Plan.ofSource rules source).steps := by
  rw [run_course, runInto, hrules]
  exact into_eq_carryOut .ofSink rules .initial sink source.lines

end Pass

end GlyphRebase
