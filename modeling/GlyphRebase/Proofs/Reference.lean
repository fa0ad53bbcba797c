import GlyphRebase.Proofs.PassOverLines

/-!
# The reference pass

What a pass has to come to, told by the lines of its input and the states they lead to. `Stops`
says how far a pass gets on given lines: to their end, to a line that is no text, or to a line whose
negative index the rules reject. `Pass.run_refines` says that the pass over a source that delivers
some bytes, into a sink that takes everything, comes to exactly that on the lines of these bytes.
-/

namespace GlyphRebase.Reference

variable (rules : Rules) (s : State)

/-- The states that lines lead to, one after each line. -/
def states (s : State) : List String → List State
  | [] => []
  | line :: lines => (s.advance line rules).1 :: states (s.advance line rules).1 lines

/-- What the lines do to the states, one outcome for each line. -/
def outcomes (s : State) : List String → List Outcome
  | [] => []
  | line :: lines => (s.advance line rules).2 :: outcomes (s.advance line rules).1 lines

/-- The state after the last line. -/
def stateAfter (lines : List String) : State :=
  lines.foldl (fun s line => (s.advance line rules).1) s

/-- The entries that are written for lines. -/
def outputEntries (lines : List String) : List Entry := (states rules s lines).map State.entry

/-- The bytes of the entries that are written for lines. -/
def output (lines : List String) : List UInt8 :=
  (states rules s lines).flatMap fun next => Utf8.encode next.entry.render

/-- What happens for lines, of which the first has the number `n + 1`: each entry is written, and
then announced. -/
def events (n : Nat) (lines : List String) : List Event :=
  ((states rules s lines).zipIdx (n + 1)).flatMap fun (next, number) =>
    [.wrote next.entry, .announced ⟨number, next⟩]

/-- The summary of a pass over lines. -/
def summary (lines : List String) : Summary :=
  ⟨lines.length, (outcomes rules s lines).count .remapped, stateAfter rules s lines⟩

/-- The line brings up a negative index, and the rules reject that. -/
def Rejected (line : String) : Prop :=
  rules.negative = .reject ∧ (s.advance line rules).2 = .remapped ∧
    (s.advance line rules).1.index < 0

/-- No line is rejected in the state that the lines before it lead to. -/
def Accepted (lines : List String) : Prop :=
  ∀ before line after, lines = before ++ line :: after →
    ¬Rejected rules (stateAfter rules s before) line

/-- How far a pass gets on lines: the texts whose entries it writes, and the error that the next
line is, if not all lines are among them. -/
inductive Stops (lines : List (List UInt8)) : List String → Option PassError → Prop where
  /-- To the end. -/
  | finished {texts : List String} (hlines : lines = texts.map Utf8.encode)
      (haccepted : Accepted rules s texts) : Stops lines texts none
  /-- To a line that is no text. -/
  | noText {texts : List String} {bad : List UInt8} {rest : List (List UInt8)}
      {fault : StreamFault} (hlines : lines = texts.map Utf8.encode ++ bad :: rest)
      (haccepted : Accepted rules s texts) (hbad : ¬Utf8.IsText bad)
      (hfault : lineText bad = .error fault) : Stops lines texts (some (.read fault))
  /-- To a line that is rejected. -/
  | negative {texts : List String} {line : String} {rest : List (List UInt8)}
      (hlines : lines = texts.map Utf8.encode ++ Utf8.encode line :: rest)
      (haccepted : Accepted rules s texts)
      (hrejected : Rejected rules (stateAfter rules s texts) line) :
      Stops lines texts
        (some (.negativeIndex (texts.length + 1) (stateAfter rules s (texts ++ [line])).index))

/-! ### One line more -/

variable {rules s}

theorem stateAfter_cons (line : String) (lines : List String) :
    stateAfter rules s (line :: lines) = stateAfter rules (s.advance line rules).1 lines := rfl

theorem stateAfter_append (before after : List String) :
    stateAfter rules s (before ++ after) = stateAfter rules (stateAfter rules s before) after :=
  List.foldl_append

theorem Accepted.nil : Accepted rules s [] := by
  intro before line after h
  simp at h

theorem accepted_cons_iff {line : String} {lines : List String} :
    Accepted rules s (line :: lines) ↔
      ¬Rejected rules s line ∧ Accepted rules (s.advance line rules).1 lines := by
  constructor
  · intro h
    refine ⟨h [] line lines rfl, fun before next after hb => ?_⟩
    exact h (line :: before) next after (by rw [hb]; rfl)
  · rintro ⟨hline, hlines⟩ before next after hb
    cases before with
    | nil =>
      cases hb
      exact hline
    | cons first before =>
      cases hb
      exact hlines before next after rfl

theorem events_cons (n : Nat) (line : String) (lines : List String) :
    events rules s n (line :: lines) =
      .wrote (s.advance line rules).1.entry :: .announced ⟨n + 1, (s.advance line rules).1⟩ ::
        events rules (s.advance line rules).1 (n + 1) lines := by
  simp [events, states]

theorem outputEntries_cons (line : String) (lines : List String) :
    outputEntries rules s (line :: lines) =
      (s.advance line rules).1.entry :: outputEntries rules (s.advance line rules).1 lines := rfl

theorem output_eq_flatMap (lines : List String) :
    output rules s lines = (outputEntries rules s lines).flatMap Entry.bytes := by
  rw [output, outputEntries, List.flatMap_map]
  rfl

/-- A pass stops somewhere on any lines. -/
theorem exists_stops (rules : Rules) (s : State) (lines : List (List UInt8)) :
    ∃ texts stop?, Stops rules s lines texts stop? := by
  induction lines generalizing s with
  | nil => exact ⟨[], none, .finished rfl .nil⟩
  | cons line lines ih =>
    by_cases hline : Utf8.IsText line
    · obtain ⟨text, rfl⟩ := hline
      by_cases hr : Rejected rules s text
      · exact ⟨[], _, @Stops.negative rules s _ [] text lines rfl .nil hr⟩
      · obtain ⟨texts, stop?, h⟩ := ih (s.advance text rules).1
        have hcons {texts : List String} (h : Accepted rules (s.advance text rules).1 texts) :
            Accepted rules s (text :: texts) := accepted_cons_iff.mpr ⟨hr, h⟩
        cases h with
        | finished hl ha => exact ⟨text :: texts, _, .finished (by rw [hl]; rfl) (hcons ha)⟩
        | noText hl ha hb hf =>
          exact ⟨text :: texts, _, .noText (by rw [hl]; rfl) (hcons ha) hb hf⟩
        | negative hl ha hn =>
          exact ⟨text :: texts, _,
            @Stops.negative rules s _ (text :: texts) _ _ (by rw [hl]; rfl) (hcons ha) hn⟩
    · obtain ⟨fault, hf, -⟩ := lineText_error hline
      exact ⟨[], _, .noText rfl .nil hline hf⟩

/-- A line that cannot be read is invalid data. -/
theorem Stops.invalidData {lines : List (List UInt8)} {texts : List String}
    {stop? : Option PassError} (h : Stops rules s lines texts stop?) :
    ∀ fault, stop? = some (.read fault) → fault.kind = .invalidData := by
  rintro fault rfl
  cases h with
  | noText _ _ hbad hfault =>
    obtain ⟨f, hf, hkind⟩ := lineText_error hbad
    rw [hf] at hfault
    cases hfault
    exact hkind

end GlyphRebase.Reference

namespace GlyphRebase

open Reference

/-! ### A line of the pass -/

namespace Summary

theorem rejects_iff {before : Summary} {line : String} {rules : Rules} :
    before.rejects line rules = true ↔ Rejected rules before.state line := by
  unfold rejects Rejected
  rcases before.state.advance line rules with ⟨next, _ | _⟩ <;> simp

theorem advance_lines (before : Summary) (line : String) (rules : Rules) :
    (before.advance line rules).lines = before.lines + 1 := by
  unfold advance
  rcases before.state.advance line rules with ⟨next, _ | _⟩ <;> rfl

theorem advance_state (before : Summary) (line : String) (rules : Rules) :
    (before.advance line rules).state = (before.state.advance line rules).1 := by
  unfold advance
  rcases before.state.advance line rules with ⟨next, _ | _⟩ <;> rfl

theorem advance_matched (before : Summary) (line : String) (rules : Rules) :
    (before.advance line rules).matched =
      before.matched + if (before.state.advance line rules).2 == .remapped then 1 else 0 := by
  unfold advance
  rcases before.state.advance line rules with ⟨next, _ | _⟩ <;> rfl

/-- The summary after lines. -/
def through (before : Summary) (rules : Rules) (lines : List String) : Summary :=
  lines.foldl (fun s line => s.advance line rules) before

theorem through_eq (before : Summary) (rules : Rules) (lines : List String) :
    before.through rules lines =
      ⟨before.lines + lines.length,
        before.matched + (outcomes rules before.state lines).count .remapped,
        stateAfter rules before.state lines⟩ := by
  induction lines generalizing before with
  | nil => rfl
  | cons line lines ih =>
    rw [through, List.foldl_cons, ← through, ih, advance_lines, advance_state, advance_matched,
      List.length_cons, outcomes, List.count_cons]
    simp only [Summary.mk.injEq]
    exact ⟨by omega, by omega, rfl⟩

theorem through_state (before : Summary) (rules : Rules) (lines : List String) :
    (before.through rules lines).state = stateAfter rules before.state lines := by
  rw [through_eq]

theorem through_initial (rules : Rules) (lines : List String) :
    initial.through rules lines = summary rules .initial lines := by
  rw [through_eq]
  simp [initial, summary]

end Summary

namespace Pass

section

variable {σ : Type} [Writable σ] {rules : Rules} {before : Summary} {line : String} {w w' : σ}

theorem process_of_rejected (before : Summary) (h : Rejected rules before.state line) (w : σ) :
    process rules before line w =
      (.error (.negativeIndex (before.lines + 1) (before.state.advance line rules).1.index),
        w) := by
  rw [process, if_pos (Summary.rejects_iff.mpr h), Summary.advance_lines, Summary.advance_state]

/-- A line that is not rejected and whose entry is written does not end the pass. -/
theorem process_of_written (h : ¬Rejected rules before.state line)
    (hw : Writable.writeAll w (before.state.advance line rules).1.entry.bytes = (.ok (), w')) :
    process rules before line w = (.ok (before.advance line rules), w') := by
  rw [process, if_neg (mt Summary.rejects_iff.mp h), Summary.advance_state, ← Entry.bytes, hw]

/-- A line that is not rejected ends the pass if its entry cannot be written. -/
theorem process_of_unwritten (h : ¬Rejected rules before.state line) {fault : StreamFault}
    (hw : Writable.writeAll w (before.state.advance line rules).1.entry.bytes =
      (.error fault, w')) :
    process rules before line w = (.error (.write fault), w') := by
  rw [process, if_neg (mt Summary.rejects_iff.mp h), Summary.advance_state, ← Entry.bytes, hw]

/-- **Lines that are accepted, and whose entries are written**: the entries are announced in order,
and the pass goes on after them with the summary they lead to. -/
theorem overLines_of_writes {texts : List String} (before : Summary)
    (h : Accepted rules before.state texts)
    (hw : Writes w (outputEntries rules before.state texts) w')
    (items : List (Except StreamFault String)) :
    overLines rules before w (texts.map .ok ++ items) =
      { overLines rules (before.through rules texts) w' items with
        events := events rules before.state before.lines texts ++
          (overLines rules (before.through rules texts) w' items).events } := by
  induction texts generalizing before w with
  | nil =>
    cases hw
    rfl
  | cons line texts ih =>
    obtain ⟨hline, htexts⟩ := accepted_cons_iff.mp h
    rw [outputEntries_cons] at hw
    cases hw with
    | cons hfirst hrest =>
      rw [← Summary.advance_state] at htexts hrest
      rw [List.map_cons, List.cons_append, overLines, process_of_written hline hfirst]
      simp only [Seen.proceed, ih _ htexts hrest, Seen.after, events_cons, Summary.advance_state,
        Summary.advance_lines, List.cons_append]
      rfl

end

/-- A sink that takes everything takes the entries of lines that are accepted, and the pass goes on
after them. -/
theorem overLines_texts {rules : Rules} {texts : List String} (before : Summary) {sink : Sink}
    (h : Accepted rules before.state texts) (hsink : sink.Accepting)
    (items : List (Except StreamFault String)) :
    ∃ sink', sink'.Accepting ∧
      sink'.taken.toList = sink.taken.toList ++ output rules before.state texts ∧
      sink'.flushes = sink.flushes ∧
      overLines rules before sink (texts.map .ok ++ items) =
        { overLines rules (before.through rules texts) sink' items with
          events := events rules before.state before.lines texts ++
            (overLines rules (before.through rules texts) sink' items).events } := by
  obtain ⟨sink', hw, hacc, hflushes, htaken⟩ :=
    hsink.writes (outputEntries rules before.state texts)
  rw [← output_eq_flatMap] at htaken
  exact ⟨sink', hacc, htaken, hflushes, overLines_of_writes before h hw items⟩

/-- A sink that takes everything can be flushed. -/
theorem close_of_accepting (before : Summary) (source : Source) {sink : Sink}
    (h : sink.Accepting) :
    (close before source sink).seen =
      ⟨.ok before, [.flushed, .finished before], { sink with flushes := sink.flushes + 1 }⟩ := by
  rw [close, h.flush_eq]
  rfl

/-- The pass over lines stops where the reference says, and no sooner. -/
theorem overLines_of_stops {rules : Rules} {lines : List (List UInt8)} {texts : List String}
    {stop? : Option PassError} (h : Stops rules .initial lines texts stop?) {sink : Sink}
    (hsink : sink.Accepting) :
    let seen := overLines rules .initial sink (lines.map lineText)
    let s := summary rules .initial texts
    seen.result = stop?.elim (.ok s) .error ∧
      seen.events = events rules .initial 0 texts ++
        (if stop? = none then [.flushed, .finished s] else []) ∧
      seen.sink.taken.toList = sink.taken.toList ++ output rules .initial texts ∧
      seen.sink.flushes = sink.flushes + if stop? = none then 1 else 0 := by
  cases h with
  | finished hl ha =>
    obtain ⟨sink', hacc, htaken, hflushes, hover⟩ := overLines_texts .initial ha hsink []
    rw [List.append_nil] at hover
    simp only [hl, map_lineText_encode, hover, overLines, close_of_accepting _ _ hacc,
      Summary.through_initial]
    exact ⟨rfl, rfl, htaken, by rw [hflushes]; rfl⟩
  | @noText bad rest fault hl ha hb hf =>
    obtain ⟨sink', hacc, htaken, hflushes, hover⟩ :=
      overLines_texts .initial ha hsink (.error fault :: rest.map lineText)
    simp only [hl, List.map_append, List.map_cons, map_lineText_encode, hf, hover, overLines]
    exact ⟨rfl, rfl, htaken, hflushes⟩
  | @negative line rest hl ha hr =>
    obtain ⟨sink', hacc, htaken, hflushes, hover⟩ :=
      overLines_texts .initial ha hsink (.ok line :: rest.map lineText)
    have hstate := Summary.through_state .initial rules texts
    have hp := process_of_rejected (Summary.initial.through rules texts)
      (by rw [hstate]; exact hr) sink'
    simp only [hl, List.map_append, List.map_cons, map_lineText_encode,
      lineText_eq_ok_iff.mpr rfl, hover, overLines, hp, Seen.proceed, hstate]
    refine ⟨?_, rfl, htaken, hflushes⟩
    rw [Summary.through_initial, stateAfter, stateAfter, List.foldl_append]
    rfl

/-- **The pass refines the reference.** Over a source that delivers some bytes, in whatever chunks,
and into a sink that takes everything: rules that cannot be applied end it before it begins.
Otherwise it gets as far on the lines of the bytes as the reference says; it ends with the summary
of all lines or with the error of the line that stopped it; it writes and announces the entries of
the lines before that in order, and then, only if there was no such line, flushes the sink once and
announces the summary. -/
theorem run_refines (rules : Rules) {source : Source} {bytes : List UInt8} {sink : Sink}
    (hsource : source.Delivers bytes) (hsink : sink.Accepting) :
    let r := run rules source sink
    (∀ reason, rules.fault? = some reason →
      r = ⟨.error (.invalidRules reason), [], source, sink⟩) ∧
    (rules.fault? = none →
      (∃ texts stop?, Stops rules .initial (linesOf bytes) texts stop?) ∧
      ∀ texts stop?, Stops rules .initial (linesOf bytes) texts stop? →
        let s := summary rules .initial texts
        r.result = stop?.elim (.ok s) .error ∧
        (∀ fault, stop? = some (.read fault) → fault.kind = .invalidData) ∧
        r.events = events rules .initial 0 texts ++
          (if stop? = none then [.flushed, .finished s] else []) ∧
        r.sink.taken.toList = sink.taken.toList ++ output rules .initial texts ∧
        r.sink.flushes = sink.flushes + if stop? = none then 1 else 0) := by
  refine ⟨fun reason h => ?_, fun h => ⟨exists_stops _ _ _, fun texts stop? hstops => ?_⟩⟩
  · simp only [run, h]
    rfl
  · have hseen := run_eq_overLines h source sink
    rw [Source.lines_of_delivers hsource] at hseen
    obtain ⟨hresult, hevents, htaken, hflushes⟩ := overLines_of_stops hstops hsink
    rw [← hseen] at hresult hevents htaken hflushes
    exact ⟨hresult, hstops.invalidData, hevents, htaken, hflushes⟩

/-- A table that comes in two chunks, cut between the carriage return and the line feed, and whose
second entry is rejected. -/
theorem run_refines_in_chunks :
    let rules : Rules := ⟨512, 0xBFB0, 0x10000, .reject⟩
    let source : Source := ⟨[], [.chunk (Utf8.encode "49200, /* (0xC030) */\r"),
      .chunk (Utf8.encode "\n7, /* (0x7) */")]⟩
    source.Delivers (Utf8.encode "49200, /* (0xC030) */\r\n7, /* (0x7) */") ∧
      Sink.perfect.Accepting ∧
      (run rules source Sink.perfect).result = .error (.negativeIndex 2 (-49065)) ∧
      (run rules source Sink.perfect).sink.taken.toList = Utf8.encode "  128,\t/* 0xC030 */\n" := by
  intro rules source
  have hsource : source.Delivers (Utf8.encode "49200, /* (0xC030) */\r\n7, /* (0x7) */") :=
    ⟨[Utf8.encode "49200, /* (0xC030) */\r", Utf8.encode "\n7, /* (0x7) */"], by decide +kernel,
      rfl, by decide +kernel⟩
  have hlines : linesOf (Utf8.encode "49200, /* (0xC030) */\r\n7, /* (0x7) */") =
      ["49200, /* (0xC030) */"].map Utf8.encode ++ [Utf8.encode "7, /* (0x7) */"] := by
    decide +kernel
  have haccepted : Accepted rules .initial ["49200, /* (0xC030) */"] := by
    refine accepted_cons_iff.mpr ⟨fun h => ?_, .nil⟩
    exact absurd h.2.2 (by decide +kernel)
  have hrejected : Rejected rules (stateAfter rules .initial ["49200, /* (0xC030) */"])
      "7, /* (0x7) */" := ⟨rfl, by decide +kernel, by decide +kernel⟩
  obtain ⟨hresult, -, -, htaken, -⟩ :=
    ((run_refines rules hsource Sink.accepting_perfect).2 (by decide)).2 _ _
      (.negative hlines haccepted hrejected)
  refine ⟨hsource, Sink.accepting_perfect, hresult.trans (by decide +kernel), htaken.trans ?_⟩
  decide +kernel

end Pass

end GlyphRebase
