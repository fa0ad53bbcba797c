import GlyphRebase.State
import GlyphRebase.Stream.Lines
import GlyphRebase.Stream.Sink
import GlyphRebase.Text.Utf8

/-!
# The pass

A pass reads a glyph table line by line and writes one entry of the rebased table for each line,
whether or not the line holds an entry. It ends with the input, or at the first thing that goes
wrong: rules that no pass accepts (then nothing is read), a line that cannot be read or is no text,
a negative index if the rules reject those, or an entry that cannot be written. Only a pass that
came to the end of its input flushes the sink, and only one that flushed it is finished.

`Pass.run` gives a `Report` of all this: how the pass ended, what it did on its way and in which
order, and what it left of the source and of the sink.
-/

namespace GlyphRebase

/-- Why a pass ends early. -/
inductive PassError where
  /-- The input cannot be read, or is no text. -/
  | read (fault : StreamFault)
  /-- The output cannot be written. -/
  | write (fault : StreamFault)
  /-- A file cannot be opened, read, created, written or replaced. -/
  | file (path : String) (fault : StreamFault)
  /-- An index is negative, and the rules reject that. -/
  | negativeIndex (line : Nat) (index : Int64)
  /-- The rules cannot be applied. -/
  | invalidRules (reason : String)
  deriving DecidableEq, Repr

namespace PassError

/-- The error in words. -/
def message : PassError → String
  | read fault => "Read error: " ++ fault.text
  | write fault => "Write error: " ++ fault.text
  | file path fault => path ++ ": " ++ fault.text
  | negativeIndex line index =>
    "Line " ++ toString line ++ " remaps to negative index " ++ Number.render index
  | invalidRules reason => "Invalid remap rules: " ++ reason

/-- The fault that the error goes back to. -/
def cause? : PassError → Option StreamFault
  | read fault | write fault | file _ fault => some fault
  | negativeIndex .. | invalidRules _ => none

end PassError

/-- What a pass has come to after some lines. -/
structure Summary where
  /-- How many lines there were. -/
  lines : Nat
  /-- How many of them held an entry that was rebased. -/
  matched : Nat
  /-- The state after them. -/
  state : State
  deriving DecidableEq, Repr

namespace Summary

/-- Before the first line. -/
def initial : Summary := ⟨0, 0, .initial⟩

/-- After one more line. -/
def advance (s : Summary) (line : String) (r : Rules) : Summary :=
  match s.state.advance line r with
  | (state, .remapped) => ⟨s.lines + 1, s.matched + 1, state⟩
  | (state, .passedOver) => ⟨s.lines + 1, s.matched, state⟩

/-- Does the line bring up a negative index that the rules reject? -/
def rejects (s : Summary) (line : String) (r : Rules) : Bool :=
  match s.state.advance line r with
  | (state, .remapped) => r.negative == .reject && state.index < 0
  | (_, .passedOver) => false

end Summary

/-- The announcement that the entry for a line was written. -/
structure Step where
  /-- The number of the line, from one. -/
  count : Nat
  /-- The state that was written. -/
  state : State
  deriving DecidableEq, Repr

/-- What a pass does on its way. -/
inductive Event where
  /-- An entry was written, all of it. -/
  | wrote (entry : Entry)
  /-- The entry of a line was announced. -/
  | announced (step : Step)
  /-- The sink was flushed. -/
  | flushed
  /-- The end was announced, with the summary. -/
  | finished (summary : Summary)
  deriving DecidableEq, Repr

namespace Event

/-- The announcement of a line. -/
def step? : Event → Option Step
  | announced step => some step
  | _ => none

/-- The announcement of the end. -/
def summary? : Event → Option Summary
  | finished summary => some summary
  | _ => none

end Event

/-- What a pass did. -/
structure Report (σ : Type) where
  /-- How it ended. -/
  result : Except PassError Summary
  /-- What it did, in order. -/
  events : List Event
  /-- What is left of the source. -/
  source : Source
  /-- What became of the sink. -/
  sink : σ

namespace Report

variable {σ : Type}

/-- The report of a pass that ends with an error. -/
def failed (e : PassError) (source : Source) (sink : σ) : Report σ :=
  ⟨.error e, [], source, sink⟩

/-- The report of a pass that wrote and announced the entry of a line, and went on as reported. -/
def after (step : Step) (r : Report σ) : Report σ :=
  { r with events := .wrote step.state.entry :: .announced step :: r.events }

/-- The lines that were announced. -/
def steps (r : Report σ) : List Step := r.events.filterMap Event.step?

/-- The summary that was announced at the end. -/
def finished? (r : Report σ) : Option Summary := r.events.findSome? Event.summary?

end Report

namespace Pass

variable {σ : Type} [Writable σ]

/-- The end of the input: the sink is flushed. -/
def close (before : Summary) (source : Source) (sink : σ) : Report σ :=
  match Writable.flush sink with
  | (.ok (), sink) => ⟨.ok before, [.flushed, .finished before], source, sink⟩
  | (.error fault, sink) => .failed (.write fault) source sink

/-- One line of the pass: the summary it leads to, unless it ends the pass. -/
def process (rules : Rules) (before : Summary) (line : String) (sink : σ) :
    Except PassError Summary × σ :=
  let now := before.advance line rules
  if before.rejects line rules then (.error (.negativeIndex now.lines now.state.index), sink)
  else
    match Writable.writeAll sink (Utf8.encode now.state.entry.render) with
    | (.ok (), sink) => (.ok now, sink)
    | (.error fault, sink) => (.error (.write fault), sink)

/-- The pass from some line on. -/
def runFrom (rules : Rules) (before : Summary) (source : Source) (sink : σ) : Report σ :=
  match _h : source.next with
  | (none, source) => close before source sink
  | (some (.error fault), source) => .failed (.read fault) source sink
  | (some (.ok line), source) =>
    match process rules before line sink with
    | (.error e, sink) => .failed e source sink
    | (.ok now, sink) => (runFrom rules now source sink).after ⟨now.lines, now.state⟩
termination_by source.size
decreasing_by exact Source.size_next_lt _h

/-- The pass over a source, into whatever can be written to. -/
def run (rules : Rules) (source : Source) (sink : σ) : Report σ :=
  match rules.fault? with
  | some reason => .failed (.invalidRules reason) source sink
  | none => runFrom rules .initial source sink

end Pass

end GlyphRebase
