import GlyphRebase.CommandLine
import GlyphRebase.Proofs.Buffering
import GlyphRebase.Proofs.FaultySinks
import GlyphRebase.Proofs.FileRuns

/-!
# What a pass announces

A pass announces each line after its entry is written, and its end after the flush; so its events
are told by its steps and its result (`Course.Orderly`). The lines are numbered from one, and at the
end the last number is the number of lines.

A pass from file to file reports the events of the pass that it came out as, if it began at all. It
succeeds just if that pass does, but for one case: an atomic pass may come to its end, and announce
it, and then not replace its output (`FilePass.Unreplaced`). `FilePass.announces_end_iff` says that
this is the only case in which an end is announced that the result does not bear out.
-/

namespace GlyphRebase

/-- What is done for the lines of steps: each entry is written, and then announced. -/
def Step.allEvents (steps : List Step) : List Event :=
  steps.flatMap fun step => [.wrote step.state.entry, .announced step]

theorem Step.allEvents_cons (step : Step) (steps : List Step) :
    allEvents (step :: steps) = .wrote step.state.entry :: .announced step :: allEvents steps := rfl

/-- Steps announce no end. -/
theorem Step.findSome?_allEvents_append (steps : List Step) (events : List Event) :
    (allEvents steps ++ events).findSome? Event.summary? = events.findSome? Event.summary? := by
  induction steps with
  | nil => rfl
  | cons step steps ih =>
    rw [allEvents_cons, List.cons_append, List.cons_append]
    exact ih

namespace Pass

theorem findSome?_closing (ending : Except PassError Summary) :
    (closing ending).findSome? Event.summary? = ending.toOption := by
  cases ending <;> rfl

end Pass

/-! ### Passes -/

/-- The course of a pass after some lines is orderly: each entry is announced after it was written,
and if the pass comes to its end, that is announced last, after the flush. The lines are numbered
on, and the summary counts all of them. -/
structure Course.Orderly {σ : Type} (before : Summary) (c : Course σ) : Prop where
  events : c.events = Step.allEvents c.steps ++ Pass.closing c.result
  counts : c.steps.map Step.count = List.range' (before.lines + 1) c.steps.length
  lines : ∀ summary, c.result = .ok summary → summary.lines = before.lines + c.steps.length

namespace Course

variable {σ : Type} {before : Summary}

theorem orderly_stopped (e : PassError) (s : σ) : Orderly before (stopped e s) :=
  ⟨rfl, rfl, fun _ h => nomatch h⟩

theorem orderly_closeInto (o : Output σ) (s : σ) : Orderly before (Pass.closeInto o before s) := by
  rw [Pass.closeInto]
  rcases o.flush s with ⟨fault | _, s'⟩
  · exact orderly_stopped ..
  · refine ⟨rfl, rfl, fun summary h => ?_⟩
    cases h
    rfl

theorem Orderly.after {now : Summary} {c : Course σ} {state : State} (h : Orderly now c)
    (hlines : now.lines = before.lines + 1) : Orderly before (c.after ⟨now.lines, state⟩) where
  events := by
    rw [steps_after, Step.allEvents_cons, result_after, List.cons_append, List.cons_append,
      ← h.events]
    rfl
  counts := by
    rw [steps_after, List.map_cons, h.counts, List.length_cons, List.range'_succ, hlines]
  lines summary hresult := by
    rw [steps_after, List.length_cons, h.lines summary hresult, hlines]
    omega

end Course

namespace Pass

theorem into_orderly {σ : Type} (o : Output σ) (rules : Rules) (before : Summary) (s : σ)
    (items : List (Except StreamFault String)) : (into o rules before s items).Orderly before := by
  fun_induction into o rules before s items with
  | case1 before s => exact Course.orderly_closeInto o s
  | case2 | case3 | case5 => exact Course.orderly_stopped ..
  | case4 before s line items now hr s' hw ih => exact ih.after (Summary.advance_lines ..)

/-- **A pass is orderly**, whatever the rules, the source and what it writes to. -/
theorem run_orderly {σ : Type} [Writable σ] {o : Output σ} (ho : o.Answers) (rules : Rules)
    (source : Source) (w : σ) : (run rules source w).course.Orderly .initial := by
  rw [run_course_of_answers rules ho, runInto]
  cases rules.fault? with
  | some reason => exact Course.orderly_stopped ..
  | none => exact into_orderly ..

end Pass

/-! ### Passes from file to file -/

namespace FilePass

variable {system : System} {rules : Rules} {atomic : Bool} {input output : String} {t : FileTree}

/-- The pass comes to its end, but its temporary file is not put in the place of the output. -/
def Unreplaced (system : System) (rules : Rules) (input output : String) (t : FileTree) : Prop :=
  ∃ source staged summary fault,
    system.attempt .openInput (t.look input) = .ok source ∧
    (stageOutput system output t).1 = .ok staged ∧
    (passOver system rules t source).result = .ok summary ∧
    system.attempt .replaceOutput ((t.put staged (.file
      (passOver system rules t source).sink.contents (outputMode t output))).rename staged
        output) = .error fault

/-- The report tells of steps that were taken, one line after the other, and of the end if the pass
came to one. -/
structure Announces (r : FileReport) (ending : Except PassError Summary) : Prop where
  events : r.events = Step.allEvents r.steps ++ Pass.closing ending
  counts : r.steps.map Step.count = List.range' 1 r.steps.length
  lines : ∀ summary, ending = .ok summary → summary.lines = r.steps.length

theorem announces_refused (path : String) (fault : StreamFault) (t : FileTree) :
    Announces (refused path fault t) (refused path fault t).result :=
  ⟨rfl, rfl, fun _ h => nomatch h⟩

/-- What is reported of a pass that ran is what the pass announced. -/
theorem announces_of_run {rules : Rules} {source : Source} {file : BufferedFile} {r : FileReport}
    (h : r.events = (Pass.run rules source file).events) :
    Announces r (Pass.run rules source file).result := by
  have horderly := Pass.run_orderly Output.answers_ofBufferedFile rules source file
  have hsteps : r.steps = (Pass.run rules source file).course.steps :=
    congrArg (List.filterMap Event.step?) h
  refine ⟨?_, ?_, fun summary hsummary => ?_⟩
  · rw [hsteps, h]
    exact horderly.events
  · rw [hsteps]
    exact horderly.counts
  · rw [hsteps, horderly.lines summary hsummary]
    exact Nat.zero_add _

theorem Announces.finished? {r : FileReport} {ending : Except PassError Summary}
    (h : Announces r ending) : r.finished? = ending.toOption := by
  rw [FileReport.finished?, h.events, Step.findSome?_allEvents_append, Pass.findSome?_closing]

/-- Only whether there was an error decides what is announced, and not which. -/
theorem Announces.mapError {r : FileReport} {ending : Except PassError Summary}
    (h : Announces r ending) (f : PassError → PassError) : Announces r (ending.mapError f) := by
  cases ending with
  | error e => exact ⟨h.events, h.counts, fun _ h => nomatch h⟩
  | ok s => exact h

/-- An atomic pass whose output is not replaced ends with that error, after it has announced its
end. -/
theorem announces_of_unreplaced (h : Unreplaced system rules input output t) :
    ∃ summary fault, Announces (runAtomic system rules input output t) (.ok summary) ∧
      (runAtomic system rules input output t).result = .error (.file output fault) := by
  obtain ⟨source, staged, summary, fault, hopen, hstage, hresult, hrename⟩ := h
  rcases stageOutput_cases system output t with ⟨_, hstaged⟩ | ⟨l, habsent, hstaged⟩
  · rw [hstaged] at hstage
    cases hstage
  · rw [hstaged] at hstage
    cases hstage
    have hne := FileTree.ne_of_look (System.attempt_eq_ok_iff.mp hopen).2 habsent
    have hl := FileTree.ne_nil_of_absent habsent
    simp only [runAtomic, hopen, hstaged]
    rw [← passOver, passOver_put_of_ne hne, FileTree.write_put_file hl, hresult]
    simp only [replaceOutput, hrename]
    refine ⟨summary, fault, ?_, rfl⟩
    rw [← hresult]
    exact announces_of_run rfl

/-- **What a pass from file to file announces.** It announces what its result says, unless it is
atomic and its output is not replaced; then it announces an end, and its result is an error. -/
theorem runOn_announces (system : System) (rules : Rules) (atomic : Bool) (input output : String)
    (t : FileTree) :
    let r := runOn system rules atomic input output t
    (¬(atomic = true ∧ Unreplaced system rules input output t) ∧ Announces r r.result) ∨
      ((atomic = true ∧ Unreplaced system rules input output t) ∧
        ∃ summary fault, Announces r (.ok summary) ∧ r.result = .error (.file output fault)) := by
  cases atomic with
  | false =>
    refine .inl ⟨nofun, ?_⟩
    rw [runOn, if_neg (by decide)]
    have hrun := runDirect_run system rules input output t
    generalize runDirect system rules input output t = r at hrun
    cases hrun with
    | unopened | uncreated => exact announces_refused ..
    | ran => exact (announces_of_run rfl).mapError _
  | true =>
    rw [runOn, if_pos rfl]
    by_cases h : Unreplaced system rules input output t
    · exact .inr ⟨⟨rfl, h⟩, announces_of_unreplaced h⟩
    · refine .inl ⟨fun hu => h hu.2, ?_⟩
      have hrun := runAtomic_run system rules input output t
      generalize runAtomic system rules input output t = r at hrun
      cases hrun with
      | unopened | unstaged => exact announces_refused ..
      | stopped | replaced => exact (announces_of_run rfl).mapError _
      | kept hopen hstage hresult hrename =>
        exact absurd ⟨_, _, _, _, hopen, hstage, hresult, hrename⟩ h

end FilePass

/-! ### The command line -/

namespace CommandLine

open FilePass

/-- The numbers from one on, each on a line, if lines are announced at all. -/
def counterText (progress : Bool) (n : Nat) : String :=
  String.join (if progress then (List.range' 1 n).map fun count => toString count ++ "\n" else [])

/-- During a pass the numbers of its lines are printed, and after them the final report if the end
was announced. -/
theorem passText_of_announces {s : Config.Settings} {r : FileReport}
    {ending : Except PassError Summary} (h : Announces r ending) :
    passText s r = counterText s.progress r.steps.length ++
      (ending.toOption.map (summaryText s.summary)).getD "" := by
  have hcounts : (r.steps.map fun step => toString step.count ++ "\n") =
      (List.range' 1 r.steps.length).map fun count => toString count ++ "\n" := by
    rw [← h.counts, List.map_map]
    rfl
  rw [passText, h.finished?, counterText, hcounts]

/-- A pass that fails prints the numbers of its lines, and no report unless it came to its end and
its output was not replaced. -/
theorem passText_of_error {s : Config.Settings} {t : FileTree} {e : PassError}
    (h : (FilePass.run s.rules s.atomic s.input s.output t).result = .error e)
    (hreplaced : ¬(s.atomic = true ∧ Unreplaced .sound s.rules s.input s.output t)) :
    let r := FilePass.run s.rules s.atomic s.input s.output t
    passText s r = counterText s.progress r.steps.length := by
  intro r
  obtain ⟨-, hannounces⟩ | ⟨hunreplaced, -⟩ :=
    runOn_announces .sound s.rules s.atomic s.input s.output t
  · rw [← FilePass.run] at hannounces
    rw [passText_of_announces hannounces, h]
    exact String.append_empty ..
  · exact absurd hunreplaced hreplaced

section

variable {t : FileTree} {o : Options} {s : Config.Settings}
  (hload : Config.load t o.layers = .ok s)
include hload

theorem runOptions_of_ok {sum : Summary}
    (h : (FilePass.run s.rules s.atomic s.input s.output t).result = .ok sum) :
    runOptions t o =
      let r := FilePass.run s.rules s.atomic s.input s.output t
      ⟨0, passText s r, "", r.tree⟩ := by
  rw [runOptions, hload]
  simp only [h]

theorem runOptions_of_error {e : PassError}
    (h : (FilePass.run s.rules s.atomic s.input s.output t).result = .error e) :
    runOptions t o =
      let r := FilePass.run s.rules s.atomic s.input s.output t
      ⟨1, passText s r, errorText e.message ++ "\n", r.tree⟩ := by
  rw [runOptions, hload]
  simp only [h]

end

end CommandLine

namespace FilePass

open CommandLine

/-- **When the announcement of an end is borne out.** The end of a pass from file to file is
announced just if it succeeds, and with the summary that it succeeds with, unless it is atomic and
its output is not replaced. The end is announced once, after all lines and after the flush. And but
for that case, a run of the program that ends with exit code 1 over settings that could be loaded
has printed no final report. -/
theorem announces_end_iff (system : System) (rules : Rules) (atomic : Bool) (input output : String)
    (t : FileTree) :
    let r := runOn system rules atomic input output t
    (r.finished? = r.result.toOption ↔
      ¬(atomic = true ∧ Unreplaced system rules input output t)) ∧
    (∀ summary, r.finished? = some summary →
      r.events = Step.allEvents r.steps ++ [.flushed, .finished summary]) ∧
    (r.finished? = none → r.events = Step.allEvents r.steps) ∧
    ∀ o s, Config.load t o.layers = .ok s → (runOptions t o).exitCode = 1 →
      ¬(s.atomic = true ∧ Unreplaced .sound s.rules s.input s.output t) →
      ∃ n, (runOptions t o).output = counterText s.progress n := by
  intro r
  obtain ⟨ending, hannounces, hiff⟩ : ∃ ending, Announces r ending ∧
      (ending.toOption = r.result.toOption ↔
        ¬(atomic = true ∧ Unreplaced system rules input output t)) := by
    obtain ⟨hreplaced, h⟩ | ⟨hunreplaced, summary, fault, h, herror⟩ :=
      runOn_announces system rules atomic input output t
    · exact ⟨_, h, iff_of_true rfl hreplaced⟩
    · refine ⟨_, h, iff_of_false ?_ (not_not.mpr hunreplaced)⟩
      rw [herror]
      exact nofun
  have hevents := hannounces.events
  refine ⟨hannounces.finished? ▸ hiff, fun summary h => ?_, fun h => ?_,
    fun o s hload hexit hreplaced => ?_⟩
  · rw [hannounces.finished?] at h
    cases ending with
    | error e => cases h
    | ok s =>
      cases h
      exact hevents
  · rw [hannounces.finished?] at h
    cases ending with
    | error e => rwa [Pass.closing, List.append_nil] at hevents
    | ok s => cases h
  · cases hresult : (FilePass.run s.rules s.atomic s.input s.output t).result with
    | ok summary =>
      rw [runOptions_of_ok hload hresult] at hexit
      cases hexit
    | error e =>
      rw [runOptions_of_error hload hresult]
      exact ⟨_, passText_of_error hresult hreplaced⟩

/-- An atomic pass over its own input, through a link, and a run whose input is missing. -/
theorem announces_end_iff_replaced :
    let t : FileTree := ⟨[(["table"], .file (Utf8.encode "49200, /* (0xC030) */\n") 0o644),
      (["out"], .link "table")], [], 0o022⟩
    let r := runOn .sound .standard true "table" "out" t
    let summary : Summary := ⟨1, 1, ⟨128, "0xC030", false, "0x0000"⟩⟩
    r.finished? = some summary ∧ r.result = .ok summary ∧
      r.events = [.wrote ⟨128, "0xC030"⟩, .announced ⟨1, summary.state⟩, .flushed,
        .finished summary] ∧
      (runOptions t { summary := some .json }).exitCode = 1 ∧
      ∃ n, (runOptions t { summary := some .json }).output = counterText true n := by
  intro t r summary
  have hfinished : r.finished? = some summary := by decide +kernel
  have hexit : (runOptions t { summary := some .json }).exitCode = 1 := by decide +kernel
  obtain ⟨-, hevents, -, hrun⟩ := announces_end_iff .sound .standard true "table" "out" t
  have hsteps : r.steps = [⟨1, summary.state⟩] := by decide +kernel
  refine ⟨hfinished, by decide +kernel, ?_, hexit, ?_⟩
  · rw [hevents summary hfinished, hsteps]
    rfl
  · exact hrun _ ⟨"input.txt", "output.txt", false, .standard, true, .json⟩ (by decide +kernel)
      hexit nofun

/-- The output is a directory, so it is not replaced: the pass fails, the tree is as it was, and the
end was announced all the same. The program prints the final report and ends with exit code 1. -/
theorem announces_end_unreplaced :
    let t : FileTree := ⟨[(["table"], .file (Utf8.encode "49200, /* (0xC030) */\n") 0o644),
      (["out"], .directory 0o755)], [], 0o022⟩
    let r := runOn .sound .standard true "table" "out" t
    let out := CommandLine.run t ["--atomic", "--quiet", "--summary", "json", "table", "out"]
    r.result = .error (.file "out" FileFault.isDirectory.toStreamFault) ∧ r.tree = t ∧
      r.finished? = some ⟨1, 1, ⟨128, "0xC030", false, "0x0000"⟩⟩ ∧ out.exitCode = 1 ∧
      out.output =
        "\x7b\"lines\":1,\"matched\":1,\"overflow\":false,\"overflow_hex\":null\x7d\n" := by
  decide +kernel

end FilePass

end GlyphRebase
