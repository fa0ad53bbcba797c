import GlyphRebase.Pass
import GlyphRebase.Proofs.Readings
import GlyphRebase.Proofs.Writing

/-!
# The pass over given lines

A pass sees of its source nothing but the lines, so it comes to the same as a recursion over the
list of lines (`Pass.run_eq_overLines`). Whatever the pass writes to, the recursion goes on just as
long as the entries are written without an error (`Writes`). A sink that takes everything lets every
step go on (`Sink.Accepting.writes`).
-/

namespace GlyphRebase

/-! ### Sinks that take everything -/

/-- The sink has room, takes something with each write, and flushes. -/
structure Sink.Accepting (s : Sink) : Prop where
  room : s.room? = none
  portion : s.portion? ≠ some 0
  flush : s.flushFails = false

namespace Sink

theorem accepting_perfect : perfect.Accepting := ⟨rfl, by decide, rfl⟩

theorem Accepting.hasRoom {s : Sink} (h : s.Accepting) (n : Nat) : s.HasRoom n :=
  hasRoom_of_room h.room n

/-- Everything can be written, and the sink goes on to take everything. -/
theorem Accepting.writeAll {s : Sink} (h : s.Accepting) (bytes : List UInt8) :
    ∃ s', s.writeAll bytes = (.ok (), s') ∧ s'.Accepting ∧ s'.flushes = s.flushes := by
  obtain ⟨htook, ⟨-, hok⟩ | ⟨hno, -⟩⟩ := s.writeAll_delivers h.portion bytes
  · have hnext : (s.writeAll bytes).2.Accepting :=
      ⟨by rw [htook.room, h.room, Option.map_none], htook.portion ▸ h.portion,
        htook.flushFails.trans h.flush⟩
    exact ⟨_, Prod.ext hok rfl, hnext, htook.flushes⟩
  · exact absurd (h.hasRoom _) hno

/-- It can be flushed. -/
theorem Accepting.flush_eq {s : Sink} (h : s.Accepting) :
    Writable.flush s = (.ok (), { s with flushes := s.flushes + 1 }) := by
  show s.flush = _
  rw [Sink.flush, h.flush]
  rfl

end Sink

/-! ### Entries one after the other -/

/-- The bytes of an entry as it is written. -/
def Entry.bytes (e : Entry) : List UInt8 := Utf8.encode e.render

/-- The entries are written one after the other, all of them without an error. -/
inductive Writes {σ : Type} [Writable σ] : σ → List Entry → σ → Prop where
  | nil (w : σ) : Writes w [] w
  | cons {w w₁ w' : σ} {e : Entry} {entries : List Entry}
      (hfirst : Writable.writeAll w e.bytes = (.ok (), w₁)) (hrest : Writes w₁ entries w') :
      Writes w (e :: entries) w'

/-- A sink that takes everything takes all entries. -/
theorem Sink.Accepting.writes {s : Sink} (h : s.Accepting) (entries : List Entry) :
    ∃ s', Writes s entries s' ∧ s'.Accepting ∧ s'.flushes = s.flushes ∧
      s'.taken.toList = s.taken.toList ++ entries.flatMap Entry.bytes := by
  induction entries generalizing s with
  | nil => exact ⟨s, .nil s, h, rfl, (List.append_nil _).symm⟩
  | cons e entries ih =>
    obtain ⟨s₁, hwrite, hacc, hflushes⟩ := h.writeAll e.bytes
    obtain ⟨s', hwrites, hacc', hflushes', htaken⟩ := ih hacc
    refine ⟨s', .cons hwrite hwrites, hacc', hflushes'.trans hflushes, ?_⟩
    rw [htaken, taken_of_writeAll hwrite, List.flatMap_cons, List.append_assoc]

/-! ### The recursion over lines -/

/-- What is seen of a pass from the side of what it writes to. -/
structure Seen (σ : Type) where
  /-- How it ended. -/
  result : Except PassError Summary
  /-- What it did, in order. -/
  events : List Event
  /-- What became of the sink. -/
  sink : σ

/-- What is seen of a reported pass. -/
def Report.seen {σ : Type} (r : Report σ) : Seen σ := ⟨r.result, r.events, r.sink⟩

namespace Seen

variable {σ : Type}

/-- A pass that wrote and announced the entry of a line, and went on as seen. -/
def after (step : Step) (s : Seen σ) : Seen σ :=
  { s with events := .wrote step.state.entry :: .announced step :: s.events }

/-- A pass that goes on after a line, unless the line ended it. -/
def proceed (line : Except PassError Summary × σ) (go : Summary → σ → Seen σ) : Seen σ :=
  match line with
  | (.error e, sink) => ⟨.error e, [], sink⟩
  | (.ok now, sink) => (go now sink).after ⟨now.lines, now.state⟩

end Seen

namespace Pass

variable {σ : Type} [Writable σ]

/-- The pass over lines, from a summary on. -/
def overLines (rules : Rules) (before : Summary) (sink : σ) :
    List (Except StreamFault String) → Seen σ
  | [] => (close before ⟨[], []⟩ sink).seen
  | .error fault :: _ => ⟨.error (.read fault), [], sink⟩
  | .ok line :: items =>
    .proceed (process rules before line sink) fun now sink => overLines rules now sink items

theorem close_seen (before : Summary) (source source' : Source) (sink : σ) :
    (close before source sink).seen = (close before source' sink).seen := by
  unfold close
  rcases Writable.flush sink with ⟨_ | _, _⟩ <;> rfl

theorem runFrom_eq_overLines (rules : Rules) (before : Summary) (source : Source) (sink : σ) :
    (runFrom rules before source sink).seen = overLines rules before sink source.lines := by
  fun_induction runFrom rules before source sink with
  | case1 before source sink rest hnext =>
    rw [Source.lines_of_end hnext, overLines]
    exact close_seen before rest ⟨[], []⟩ sink
  | case2 before source sink fault rest hnext =>
    rw [Source.lines_of_next hnext]
    rfl
  | case3 before source sink line rest hnext e sink' hp =>
    rw [Source.lines_of_next hnext, overLines, hp]
    rfl
  | case4 before source sink line rest hnext now sink' hp ih =>
    rw [Source.lines_of_next hnext, overLines, hp]
    exact congrArg (Seen.after _) ih

/-- **A pass depends on its source through the lines alone.** -/
theorem run_eq_overLines {rules : Rules} (h : rules.fault? = none) (source : Source) (sink : σ) :
    (run rules source sink).seen = overLines rules .initial sink source.lines := by
  rw [run, h]
  exact runFrom_eq_overLines rules .initial source sink

theorem run_result_eq {rules : Rules} (h : rules.fault? = none) (source : Source) (sink : σ) :
    (run rules source sink).result = (overLines rules .initial sink source.lines).result :=
  congrArg Seen.result (run_eq_overLines h source sink)

theorem run_sink_eq {rules : Rules} (h : rules.fault? = none) (source : Source) (sink : σ) :
    (run rules source sink).sink = (overLines rules .initial sink source.lines).sink :=
  congrArg Seen.sink (run_eq_overLines h source sink)

/-- Sources with the same lines are passed over alike, whatever the rules and what is written to. -/
theorem run_seen_of_same_lines {source source' : Source} (h : source'.lines = source.lines)
    (rules : Rules) (sink : σ) :
    (run rules source' sink).seen = (run rules source sink).seen := by
  cases hrules : rules.fault? with
  | some reason =>
    rw [run, run, hrules]
    rfl
  | none => rw [run_eq_overLines hrules, run_eq_overLines hrules, h]

end Pass

end GlyphRebase
