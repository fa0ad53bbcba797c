import GlyphRebase.Proofs.LineEnds
import GlyphRebase.Proofs.Rounds

/-!
# The position of a reader

A call for a line is a run of rounds, of which only the last returns (`LineReader.Reads`). A call
begins with nothing held, whatever the call before has left; `LineReader.Reached` are the readers
that calls may leave, one after the other.

What holds of one round is said of its turns. A round that does not return consumes all that it is
shown, one byte at least, so it uses up a delivery, and a call ends (`LineReader.exists_reads`). The
bytes held are at any time those that the call has consumed, and the source has still to deliver
what it had to deliver but for these. So, when a line is returned, the source stands behind the end
of it (`LineReader.Reads.exact`).

The main statement, `LineReader.Reached.reads_exact`, says this of every call that can be made, and
that it hands out what `Source.next` gives.
-/

namespace GlyphRebase

/-! ### Where a source stands -/

/-- The bytes of a delivery. -/
def Delivery.bytes : Delivery → List UInt8
  | .chunk bytes => bytes
  | .failure _ => []

/-- The bytes that a source has still to deliver. -/
def Source.remaining (s : Source) : List UInt8 := s.deliveries.flatMap Delivery.bytes

theorem Source.remaining_mk (ready : List UInt8) (script : List Delivery) :
    (mk ready script).remaining = ready ++ script.flatMap Delivery.bytes := by
  cases ready <;> simp [remaining, deliveries, Delivery.bytes]

/-- The bytes that a round has the source consume. -/
def Round.consumed (round : Round) : List UInt8 := round.shown.take (round.used?.getD 0)

/-- Of the bytes held, only the last may be a carriage return, and only while the source has not
shown the byte after it. None is a line feed. -/
def LineReader.HoldsBack (r : LineReader) : Prop :=
  ∃ text, Unbroken text ∧
    (r.held = text ∨ r.held = text ++ [carriageReturn] ∧ r.source.ready = [])

theorem LineReader.HoldsBack.cutLine_eq_none {r : LineReader} (h : r.HoldsBack) :
    cutLine r.held = none := by
  obtain ⟨text, ht, hheld | ⟨hheld, -⟩⟩ := h
  · exact cutLine_eq_none_iff.mpr ⟨text, ht, .inl hheld⟩
  · exact cutLine_eq_none_iff.mpr ⟨text, ht, .inr hheld⟩

/-- Bytes that settle the end of no line may be held while no byte is ready. -/
theorem holdsBack_of_cutLine {held : List UInt8} (h : cutLine held = none)
    (script : List Delivery) : LineReader.HoldsBack ⟨⟨[], script⟩, held⟩ := by
  obtain ⟨text, ht, hheld | hheld⟩ := cutLine_eq_none_iff.mp h
  · exact ⟨text, ht, .inl hheld⟩
  · exact ⟨text, ht, .inr ⟨hheld, rfl⟩⟩

/-! ### One round -/

/-- What holds of every round. -/
structure Round.Sound (round : Round) : Prop where
  /-- The source is asked to consume one byte at least, and no more than it has shown. -/
  consumes : ∀ count, round.used? = some count → 1 ≤ count ∧ count ≤ round.shown.length
  /-- A round that does not return consumes something, and holds it after what it held before. -/
  goesOn : round.returned? = none →
    round.consumed ≠ [] ∧ round.after.held = round.before.held ++ round.consumed
  /-- It begins with a reader that holds back no more than a carriage return. -/
  before : round.before.HoldsBack
  /-- It leaves such a reader. -/
  after : round.after.HoldsBack

/-- How a line ends for which these bytes were consumed. -/
inductive Ended (line consumed : List UInt8) (last : Round) : Prop where
  /-- In a terminator. If that is a lone carriage return, then the byte after it is ready, and is
  no line feed, or the source has shown that there is none. -/
  | terminated (e : LineEnd) (hconsumed : consumed = line ++ e.bytes)
      (hsettled : e = .cr →
        last.shown = [] ∨ ∃ c cs, last.after.source.ready = c :: cs ∧ c ≠ lineFeed)
  /-- With the input, if there is something in the line. -/
  | unterminated (hconsumed : consumed = line) (hne : line ≠ []) (hend : last.shown = [])

/-- What a reader has pulled from its source when it returns. -/
def LineReader.pulled (r : LineReader) : Except StreamFault Bool → Source.Pulled
  | .ok true => .line r.held
  | .ok false => .finished
  | .error fault => .failed fault

namespace Turn

open Source

variable {r : LineReader} {round : Round}

/-- Consuming nothing is the same as not consuming. -/
theorem take_getD_used (shown : List UInt8) (used : Nat) :
    shown.take ((if used = 0 then none else some used : Option Nat).getD 0) = shown.take used := by
  by_cases h : used = 0 <;> simp [h]

/-- A line that ends in the bytes shown. -/
theorem cutLine_settled {shown bytes : List UInt8} {used : Nat} (hr : r.HoldsBack)
    (hne : shown ≠ []) (hcut : cut r.held shown = .line bytes used) :
    cutLine (r.held ++ shown) = some (bytes, shown.drop used) :=
  cutLine_of_cut_line hr.cutLine_eq_none hne hcut

theorem before_eq (h : Turn r round) : round.before = r := by
  cases h <;> rfl

/-- **Every round is sound.** -/
theorem sound (h : Turn r round) (hr : r.HoldsBack) : round.Sound := by
  cases h with
  | failed hsource =>
    exact ⟨nofun, nofun, hr, holdsBack_of_cutLine hr.cutLine_eq_none _⟩
  | ended _ hline _ => exact ⟨nofun, nofun, hr, _, hline, .inl rfl⟩
  | @settled shown bytes used _ hsource hne hcut =>
    have hline := (cutLine_eq_some (cutLine_settled hr hne hcut)).1
    refine ⟨fun count hcount => ?_, nofun, hr, _, hline, .inl rfl⟩
    have hle := used_le_of_cut hne hcut
    by_cases hused : used = 0
    · simp [hused] at hcount
    · simp only [hused, ↓reduceIte, Option.some.injEq] at hcount
      subst hcount
      exact ⟨Nat.pos_of_ne_zero hused, hle⟩
  | goesOn hsource hne hcut =>
    obtain ⟨rfl, hmore⟩ := cutLine_of_cut_more hr.cutLine_eq_none hne hcut
    refine ⟨fun count hcount => ?_, fun _ => ⟨?_, ?_⟩, hr, holdsBack_of_cutLine hmore _⟩
    · cases hcount
      exact ⟨List.length_pos_iff.mpr hne, le_rfl⟩
    · simpa [Round.consumed] using hne
    · simp [Round.consumed]

/-- The source has still to deliver what it had to deliver, but for the bytes consumed. -/
theorem remaining_eq (h : Turn r round) :
    r.source.remaining = round.consumed ++ round.after.source.remaining := by
  cases h with
  | failed hsource =>
    rw [Source.remaining, hsource, remaining_mk]
    rfl
  | ended hsource =>
    rw [Source.remaining, remaining_mk]
    obtain ⟨hsource, rfl⟩ | hsource := hsource <;> rw [hsource] <;> rfl
  | goesOn hsource hne hcut =>
    rw [Source.remaining, hsource, remaining_mk, Round.consumed]
    simp [Delivery.bytes]
  | settled hsource hne hcut =>
    rw [Source.remaining, hsource, remaining_mk, Round.consumed, take_getD_used,
      ← List.append_assoc, List.take_append_drop]
    rfl

/-- A round that does not return uses up the first delivery, and reading goes on from there. -/
theorem eq_of_goesOn (h : Turn r round) (hret : round.returned? = none) :
    r.source.deliveries = .chunk round.shown :: round.after.source.deliveries ∧
      pullFrom r.held r.source.deliveries =
        pullFrom round.after.held round.after.source.deliveries := by
  cases h with
  | failed => cases hret
  | ended => cases hret
  | settled => cases hret
  | goesOn hsource hne hcut =>
    refine ⟨hsource, ?_⟩
    rw [hsource, pullFrom, if_neg (by simpa using hne), hcut]
    rfl

/-- A round that returns a line has consumed the rest of it with its end. -/
theorem line_eq (h : Turn r round) (hr : r.HoldsBack) (hret : round.returned? = some (.ok true)) :
    Unbroken round.after.held ∧ Ended round.after.held (r.held ++ round.consumed) round := by
  cases h with
  | failed => cases hret
  | goesOn => cases hret
  | ended _ hline hheld =>
    obtain ⟨hheld, hisLine⟩ | ⟨hheld, -⟩ := hheld
    · cases hret
      refine ⟨hline, .unterminated ?_ (by simpa using hisLine.symm) rfl⟩
      simp [Round.consumed, hheld]
    · refine ⟨hline, .terminated .cr ?_ fun _ => .inl rfl⟩
      simp [Round.consumed, hheld, LineEnd.bytes]
  | @settled shown bytes used _ hsource hne hcut =>
    obtain ⟨ht, hshape⟩ := cutLine_eq_some (cutLine_settled hr hne hcut)
    rw [Round.consumed, take_getD_used]
    -- what is not consumed of the bytes shown is all that follows the end of the line
    have hsplit : r.held ++ shown.take used ++ shown.drop used = r.held ++ shown := by
      rw [List.append_assoc, List.take_append_drop]
    have hend {e : LineEnd} (he : r.held ++ shown = bytes ++ e.bytes ++ shown.drop used) :
        r.held ++ shown.take used = bytes ++ e.bytes :=
      List.append_cancel_right (hsplit.trans he)
    refine ⟨ht, ?_⟩
    rcases hshape with hlf | hcrlf | ⟨c, cs, hc, hready, hcr⟩
    · exact .terminated .lf (hend (by simpa [LineEnd.bytes] using hlf)) (by simp)
    · exact .terminated .crlf (hend (by simpa [LineEnd.bytes] using hcrlf)) (by simp)
    · exact .terminated .cr (hend (by simpa [LineEnd.bytes] using hcr))
        fun _ => .inr ⟨c, cs, hready, hc⟩

/-- A round that returns has pulled what reading for the line pulls. -/
theorem pullFrom_eq (h : Turn r round) {returned : Except StreamFault Bool}
    (hret : round.returned? = some returned) :
    pullFrom r.held r.source.deliveries = (round.after.pulled returned, round.after.source) := by
  cases h with
  | failed hsource =>
    cases hret
    rw [hsource]
    rfl
  | @ended script line isLine hsource hline hheld =>
    cases hret
    have hclose : close r.held = LineReader.pulled ⟨⟨[], script⟩, line⟩ (.ok isLine) := by
      obtain ⟨hheld, rfl⟩ | ⟨hheld, rfl⟩ := hheld
      · rw [hheld, close, if_neg hline.getLast?_ne]
        cases line <;> rfl
      · rw [hheld, close, if_pos (List.getLast?_concat ..), List.dropLast_concat]
        rfl
    obtain ⟨hsource, rfl⟩ | hsource := hsource
    · rw [hsource, pullFrom, hclose]
    · rw [hsource, pullFrom, if_pos List.isEmpty_nil, hclose]
  | settled hsource hne hcut =>
    cases hret
    rw [hsource, pullFrom, if_neg (by simpa using hne), hcut]
    rfl
  | goesOn => cases hret

end Turn

/-! ### A call -/

/-- The bytes that the rounds of a call have the source consume. -/
def consumedBy (rounds : List Round) (last : Round) : List UInt8 :=
  (rounds ++ [last]).flatMap Round.consumed

namespace LineReader

/-- A call for a line: the rounds that go on, and the last one. -/
inductive Reads : LineReader → List Round → Round → Prop where
  /-- The round returns. -/
  | returns {r : LineReader} {last : Round} (hround : r.round = .ok last)
      (hret : last.returned?.isSome) : Reads r [] last
  /-- The round does not return, and is followed by the next. -/
  | goesOn {r : LineReader} {round last : Round} {rounds : List Round}
      (hround : r.round = .ok round) (hret : round.returned? = none)
      (hrest : Reads round.after rounds last) : Reads r (round :: rounds) last

/-- What holds of a call, or of what remains of one. -/
structure Exact (r : LineReader) (rounds : List Round) (last : Round) : Prop where
  /-- Each round is sound. -/
  sound : ∀ round ∈ rounds ++ [last], round.Sound
  /-- There are no more rounds that go on than deliveries. -/
  length_le : rounds.length ≤ r.source.deliveries.length
  /-- The source has still to deliver what it had to deliver, but for the bytes consumed. -/
  remaining : r.source.remaining = consumedBy rounds last ++ last.after.source.remaining
  /-- A line that is returned is free of terminators, and is with its end what was consumed for
  it. -/
  line : last.returned? = some (.ok true) → Unbroken last.after.held ∧
    Ended last.after.held (r.held ++ consumedBy rounds last) last
  /-- `Source.pullFrom` pulls what is returned. -/
  pulled : ∀ returned, last.returned? = some returned →
    Source.pullFrom r.held r.source.deliveries = (last.after.pulled returned, last.after.source)

variable {r : LineReader} {rounds : List Round} {round last : Round}

theorem turn_of_round (hr : r.HoldsBack) (h : r.round = .ok round) : Turn r round := by
  obtain ⟨round', hround, hturn⟩ := exists_turn hr.cutLine_eq_none
  rw [h] at hround
  cases hround
  exact hturn

theorem exact_of_turn (hr : r.HoldsBack) (h : Turn r last) : Exact r [] last where
  sound := by
    intro round hmem
    rw [List.nil_append, List.mem_singleton] at hmem
    exact hmem ▸ h.sound hr
  length_le := Nat.zero_le _
  remaining := by simpa [consumedBy] using h.remaining_eq
  line := by simpa [consumedBy] using h.line_eq hr
  pulled := fun _ => h.pullFrom_eq

/-- One round more in front. -/
theorem Exact.cons (hr : r.HoldsBack) (h : Turn r round) (hret : round.returned? = none)
    (hrest : Exact round.after rounds last) : Exact r (round :: rounds) last := by
  obtain ⟨hdeliveries, hpull⟩ := h.eq_of_goesOn hret
  obtain ⟨-, hheld⟩ := (h.sound hr).goesOn hret
  rw [h.before_eq] at hheld
  have hconsumed : consumedBy (round :: rounds) last =
      round.consumed ++ consumedBy rounds last := by simp [consumedBy]
  constructor
  case sound =>
    intro other hmem
    rcases List.mem_cons.mp hmem with rfl | hmem
    · exact h.sound hr
    · exact hrest.sound other hmem
  case length_le =>
    rw [hdeliveries]
    exact Nat.succ_le_succ hrest.length_le
  case remaining => rw [hconsumed, List.append_assoc, ← hrest.remaining, h.remaining_eq]
  case line =>
    intro hline
    rw [hconsumed, ← List.append_assoc, ← hheld]
    exact hrest.line hline
  case pulled =>
    intro returned hreturned
    rw [hpull, hrest.pulled returned hreturned]

/-- **A call is exact**, whatever it comes to. -/
theorem Reads.exact (h : Reads r rounds last) (hr : r.HoldsBack) : Exact r rounds last := by
  induction h with
  | returns hround => exact exact_of_turn hr (turn_of_round hr hround)
  | goesOn hround hret _ ih =>
    have hturn := turn_of_round hr hround
    exact .cons hr hturn hret (ih (hturn.sound hr).after)

/-- A round returns, or uses up a delivery. -/
theorem exists_round (hr : r.HoldsBack) :
    ∃ round, r.round = .ok round ∧ (round.returned?.isSome ∨
      round.returned? = none ∧ round.after.HoldsBack ∧
        r.source.deliveries = .chunk round.shown :: round.after.source.deliveries) := by
  obtain ⟨round, hround, hturn⟩ := exists_turn hr.cutLine_eq_none
  refine ⟨round, hround, ?_⟩
  cases hret : round.returned? with
  | some => exact .inl rfl
  | none => exact .inr ⟨rfl, (hturn.sound hr).after, (hturn.eq_of_goesOn hret).1⟩

/-- **A call ends**, without a breach. -/
theorem exists_reads (hr : r.HoldsBack) : ∃ rounds last, Reads r rounds last := by
  -- on the deliveries, of which a round that goes on uses up one
  induction hs : r.source.deliveries generalizing r with
  | nil =>
    obtain ⟨round, hround, hret | ⟨-, -, hnext⟩⟩ := exists_round hr
    · exact ⟨[], round, .returns hround hret⟩
    · rw [hs] at hnext
      cases hnext
  | cons delivery script ih =>
    obtain ⟨round, hround, hret | ⟨hret, hafter, hnext⟩⟩ := exists_round hr
    · exact ⟨[], round, .returns hround hret⟩
    · rw [hs] at hnext
      cases hnext
      obtain ⟨rounds, last, hrest⟩ := ih hafter rfl
      exact ⟨round :: rounds, last, .goesOn hround hret hrest⟩

/-! ### One call after the other -/

/-- The reader with nothing held, as a call begins. -/
def cleared (r : LineReader) : LineReader := ⟨r.source, []⟩

theorem holdsBack_cleared (r : LineReader) : r.cleared.HoldsBack := ⟨[], .nil, .inl rfl⟩

/-- What is handed out when a call returns, and the reader that is left. The bytes of a line are
handed out as text; all others stay held until the next call begins. -/
def handOut (r : LineReader) :
    Except StreamFault Bool → Option (Except StreamFault String) × LineReader
  | .ok true => (some (lineText r.held), r.cleared)
  | .ok false => (none, r)
  | .error fault => (some (.error fault), r)

/-- The readers that calls may leave of a new one. -/
inductive Reached (s : Source) : LineReader → Prop where
  /-- No call was made. -/
  | start : Reached s ⟨s, []⟩
  /-- One more call was made. -/
  | call {r : LineReader} {rounds : List Round} {last : Round}
      {returned : Except StreamFault Bool} (hr : Reached s r) (hreads : Reads r.cleared rounds last)
      (hret : last.returned? = some returned) : Reached s (last.after.handOut returned).2

theorem Reached.holdsBack {s : Source} (h : Reached s r) : r.HoldsBack := by
  cases h with
  | start => exact ⟨[], .nil, .inl rfl⟩
  | @call r rounds last returned hr hreads hret =>
    have hsound := (hreads.exact r.holdsBack_cleared).sound last (by simp)
    match returned with
    | .ok true => exact last.after.holdsBack_cleared
    | .ok false | .error _ => exact hsound.after

theorem Reads.exists_returned (h : Reads r rounds last) :
    ∃ returned, last.returned? = some returned := by
  induction h with
  | returns _ hret => exact Option.isSome_iff_exists.mp hret
  | goesOn _ _ _ ih => exact ih

/-- What is handed out, and what is left of the source, is what `Source.next` gives. -/
theorem Exact.handOut_eq (h : Exact r.cleared rounds last) {returned : Except StreamFault Bool}
    (hret : last.returned? = some returned) :
    (last.after.handOut returned).1 = r.source.next.1 ∧
      (last.after.handOut returned).2.source = r.source.next.2 := by
  have hpull : r.source.pull = (last.after.pulled returned, last.after.source) :=
    h.pulled returned hret
  rw [Source.next_eq, hpull]
  match returned with
  | .ok true | .ok false | .error _ => exact ⟨rfl, rfl⟩

/-- **A reader keeps its position.** Between calls it holds back no more than a carriage return. The
next call ends, without a breach, after no more rounds than there are deliveries, and the one that
returns. In each round the source is asked to consume one byte at least, if any, and no more than it
has shown; a round that does not return consumes something; and a carriage return is held back only
as the last byte, and only until the byte after it is shown. In the end the source has still to
deliver what it had to deliver, but for the bytes consumed, and if a line is returned, these are the
bytes of the line and its end. What is handed out is what `Source.next` gives, and so is what is
left of the source. -/
theorem Reached.reads_exact {s : Source} (h : Reached s r) :
    r.HoldsBack ∧ (∃ rounds last, Reads r.cleared rounds last) ∧
      ∀ rounds last, Reads r.cleared rounds last →
        Exact r.cleared rounds last ∧
        ∃ returned, last.returned? = some returned ∧
          (last.after.handOut returned).1 = r.source.next.1 ∧
          (last.after.handOut returned).2.source = r.source.next.2 := by
  refine ⟨h.holdsBack, exists_reads r.holdsBack_cleared, fun rounds last hreads => ?_⟩
  have hexact := hreads.exact r.holdsBack_cleared
  obtain ⟨returned, hret⟩ := hreads.exists_returned
  exact ⟨hexact, returned, hret, hexact.handOut_eq hret⟩

/-- A call after one that failed, with a carriage return still held: that one is dropped, and the
carriage return and the line feed of the next line come in different chunks. -/
theorem reads_exact_over_held_return :
    let fault : StreamFault := ⟨.other, "injected"⟩
    let chunks : List Delivery := [.chunk [0x62, 0x0D], .chunk [0x0A, 0x63]]
    let s : Source := ⟨[], .chunk [0x61, 0x0D] :: .failure fault :: chunks⟩
    let r : LineReader := ⟨⟨[], chunks⟩, [0x61, 0x0D]⟩
    Reached s r ∧ ∃ rounds last, Reads r.cleared rounds last ∧ rounds.length ≤ 2 ∧
      last.returned? = some (.ok true) ∧ last.after = ⟨⟨[0x63], []⟩, [0x62]⟩ ∧
      consumedBy rounds last = [0x62, 0x0D, 0x0A] := by
  intro fault chunks s r
  let held : LineReader := ⟨⟨[], .failure fault :: chunks⟩, [0x61, 0x0D]⟩
  let first : Round := ⟨⟨s, []⟩, [0x61, 0x0D], some 2, none, held⟩
  let failed : Round := ⟨held, [], none, some (.error fault), r⟩
  have hfailed : Reads ⟨s, []⟩ [first] failed := .goesOn rfl rfl (.returns rfl rfl)
  have hr : Reached s (failed.after.handOut (.error fault)).2 := .call .start hfailed rfl
  obtain ⟨-, ⟨rounds, last, hreads⟩, hall⟩ := hr.reads_exact
  obtain ⟨hexact, returned, hret, -⟩ := hall rounds last hreads
  have hpulled : (Source.Pulled.line [0x62], (⟨[0x63], []⟩ : Source)) =
      (last.after.pulled returned, last.after.source) := hexact.pulled returned hret
  obtain ⟨hline, hsource⟩ := Prod.mk.inj hpulled
  match returned with
  | .ok true =>
    have hheld : last.after.held = [0x62] := (Source.Pulled.line.inj hline).symm
    have hremaining := hexact.remaining
    rw [← hsource] at hremaining
    have hconsumed : [0x62, 0x0D, 0x0A] ++ [0x63] = consumedBy rounds last ++ [0x63] := hremaining
    refine ⟨hr, rounds, last, hreads, hexact.length_le, hret, ?_, ?_⟩
    · exact congrArg₂ mk hsource.symm hheld
    · exact (List.append_cancel_right hconsumed).symm
  | .ok false | .error _ => cases hline

end LineReader

end GlyphRebase
