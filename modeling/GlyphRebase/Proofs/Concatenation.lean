import GlyphRebase.Proofs.AnyOutput
import GlyphRebase.Proofs.LatestEntry
import GlyphRebase.Proofs.WholeText

/-!
# Passes over two tables in a row

A table that ends with a line feed, or is empty, may be followed by another one, and the lines of
both together are those of the one and then those of the other (`linesOf_append_of_closed`). The
pass over both goes on where the pass over the first came to its end. Nothing of what it carries
over has a part in what the second table is rebased to, but for two things: the entry last written,
which is written once more until the second table brings up an entry of its own, and the record of
an overflow, which stays (`Pass.run_append`).
-/

namespace GlyphRebase

open Reference

/-! ### Lines -/

/-- The bytes are none, or end in a line feed. -/
def Closed (bytes : List UInt8) : Prop := bytes = [] ∨ bytes.getLast? = some lineFeed

/-- What follows closed bytes begins a line of its own. -/
theorem linesOf_append_of_closed {front : List UInt8} (h : Closed front) (rest : List UInt8) :
    linesOf (front ++ rest) = linesOf front ++ linesOf rest := by
  induction front using lines_induction with
  | unbroken text ht =>
    obtain rfl | hlast := h
    · rw [linesOf_nil, List.nil_append, List.nil_append]
    · exact absurd (ht _ (List.mem_of_getLast? hlast)) (by decide)
  | ended text e more ht he ih =>
    have hlast : (text ++ (e.bytes ++ more)).getLast? = some lineFeed := by
      refine h.resolve_left fun hnil => ?_
      have := e.length_bytes_pos
      have hlength := congrArg List.length hnil
      simp only [List.length_append, List.length_nil] at hlength
      omega
    have hmore : Closed more ∧ e.EndsBefore (more ++ rest) := by
      cases more with
      | nil =>
        refine ⟨.inl rfl, ?_⟩
        rintro rfl
        rw [List.append_nil, LineEnd.bytes, List.getLast?_concat] at hlast
        cases hlast
      | cons c cs =>
        refine ⟨.inr ?_, he⟩
        rw [List.getLast?_append, List.getLast?_append] at hlast
        rw [List.getLast?_cons] at hlast ⊢
        exact hlast
    rw [List.append_assoc, List.append_assoc, linesOf_ended ht hmore.2, linesOf_ended ht he,
      ih hmore.1, List.cons_append]

theorem closed_encode {text : String} (h : text = "" ∨ ∃ front, text = front ++ "\n") :
    Closed (Utf8.encode text) := by
  rcases h with rfl | ⟨front, rfl⟩
  · exact .inl rfl
  · refine .inr ?_
    rw [Utf8.encode_append]
    exact List.getLast?_concat ..

/-! ### Where a pass stops -/

/-- The error as it is when so many lines stand in front. -/
def PassError.behind (n : Nat) : PassError → PassError
  | .negativeIndex line index => .negativeIndex (n + line) index
  | e => e

namespace Reference

variable {r : Rules} {s s' : State} {la lb : List (List UInt8)} {ta tb : List String}

/-- A line that stops a pass stops it whatever follows. -/
theorem Stops.append_right {e : PassError} (h : Stops r s la ta (some e))
    (lb : List (List UInt8)) : Stops r s (la ++ lb) ta (some e) := by
  cases h with
  | noText hl ha hb hf => exact .noText (by rw [hl, List.append_assoc]; rfl) ha hb hf
  | negative hl ha hn => exact .negative (by rw [hl, List.append_assoc]; rfl) ha hn

theorem entry_stateAfter_concat (hr : r.fault? = none) {line : String} {e : Entry}
    (h : r.rebased? line = some e) (s : State) (lines : List String) :
    (stateAfter r s (lines ++ [line])).entry = e := by
  rw [stateAfter_append, stateAfter_cons]
  exact (State.advance_of_rebased?_some _ hr h).2

/-- Behind lines that a pass gets to the end of, it gets as far as it gets from the start, whatever
the state there. -/
theorem Stops.append (hr : r.fault? = none) {stop? : Option PassError}
    (ha : Stops r s la ta none) (hb : Stops r s' lb tb stop?) :
    Stops r s (la ++ lb) (ta ++ tb) (stop?.map (PassError.behind ta.length)) := by
  have haccepted {lines lines' : List String} (h : Accepted r s lines) (h' : Accepted r s' lines') :
      Accepted r s (lines ++ lines') :=
    (accepted_iff hr).mpr
      (List.forall_mem_append.mpr ⟨(accepted_iff hr).mp h, (accepted_iff hr).mp h'⟩)
  cases ha with
  | finished hla hacca =>
    cases hb with
    | finished hlb haccb =>
      exact .finished (by rw [hla, hlb, List.map_append]) (haccepted hacca haccb)
    | @noText bad rest fault hlb haccb hbad hfault =>
      have hlines : la ++ lb = (ta ++ tb).map Utf8.encode ++ bad :: rest := by
        rw [hla, hlb, List.map_append, List.append_assoc]
      exact .noText hlines (haccepted hacca haccb) hbad hfault
    | @negative line rest hlb haccb hrejected =>
      have hrefuses := (rejected_iff hr).mp hrejected
      have hlines : la ++ lb = (ta ++ tb).map Utf8.encode ++ Utf8.encode line :: rest := by
        rw [hla, hlb, List.map_append, List.append_assoc]
      have hstops := Stops.negative hlines (haccepted hacca haccb)
        ((rejected_iff (s := stateAfter r s (ta ++ tb)) hr).mpr hrefuses)
      obtain ⟨-, e, he, -⟩ := hrefuses
      -- Both states come of the same rebased line, so they name the same index.
      have hentry : (stateAfter r s (ta ++ tb ++ [line])).entry =
          (stateAfter r s' (tb ++ [line])).entry := by
        rw [entry_stateAfter_concat hr he, entry_stateAfter_concat hr he]
      have hindex : (stateAfter r s (ta ++ tb ++ [line])).index =
          (stateAfter r s' (tb ++ [line])).index := congrArg Entry.index hentry
      rw [hindex, List.length_append, Nat.add_assoc] at hstops
      exact hstops

/-- Over texts a pass stops at nothing but a line that is rejected. -/
theorem Stops.of_texts (hr : r.fault? = none) {all : List String} {stop? : Option PassError}
    (h : Stops r s (all.map Utf8.encode) ta stop?) :
    (stop? = none ∧ all = ta) ∨
      ∃ line rest index, all = ta ++ line :: rest ∧ r.Refuses line ∧
        stop? = some (.negativeIndex (ta.length + 1) index) := by
  cases h with
  | finished hl _ =>
    exact .inl ⟨rfl, List.map_injective_iff.mpr (fun _ _ => Utf8.encode_injective) hl⟩
  | @noText bad rest fault hl _ hbad _ =>
    have hmem : bad ∈ all.map Utf8.encode := by
      rw [hl]
      exact List.mem_append_right _ (List.mem_cons_self ..)
    obtain ⟨text, -, rfl⟩ := List.mem_map.mp hmem
    exact absurd (Utf8.isText_encode text) hbad
  | @negative line rest hl _ hn =>
    obtain ⟨front, back, rfl, hfront, hback⟩ := List.map_eq_append_iff.mp hl
    obtain ⟨line', rest', rfl, hline, -⟩ := List.map_eq_cons_iff.mp hback
    cases Utf8.encode_injective hline
    cases List.map_injective_iff.mpr (fun _ _ => Utf8.encode_injective) hfront
    exact .inr ⟨line, rest', _, rfl, (rejected_iff hr).mp hn, rfl⟩

/-- The lines that a pass does not get to have no part in how often it repeats the entry at the
start. -/
theorem Stops.echoed_eq (hr : r.fault? = none) {all : List String} {stop? : Option PassError}
    (h : Stops r s (all.map Utf8.encode) ta stop?) : echoed r all = echoed r ta := by
  obtain ⟨-, rfl⟩ | ⟨line, rest, index, rfl, ⟨-, e, he, -⟩, -⟩ := h.of_texts hr
  · rfl
  · exact echoed_append_cons he ta rest

/-! ### What is left of two tables -/

theorem firstOverflow?_congr (h : s.memory = s'.memory) : s.firstOverflow? = s'.firstOverflow? := by
  obtain ⟨hseen, hcode⟩ := State.memory_eq_iff.mp h
  rw [State.firstOverflow?, State.firstOverflow?, hseen, hcode]

theorem entries_append (hr : r.fault? = none) (s : State) (a b : List String) :
    entries r s.entry (a ++ b) = entries r s.entry a ++ entries r (stateAfter r s a).entry b := by
  induction a generalizing s with
  | nil => rfl
  | cons line a ih =>
    rw [List.cons_append, entries, entries, stateAfter_cons, List.cons_append, ← s.entry_advance hr,
      ih]

theorem matched_append (hr : r.fault? = none) (a b : List String) :
    (summary r .initial (a ++ b)).matched =
      (summary r .initial a).matched + (summary r .initial b).matched := by
  simp only [summary, count_outcomes hr, List.filterMap_append, List.length_append]

/-- The first overflow is that of the first lines, if one of them overflows. -/
theorem firstOverflow?_append (r : Rules) (a b : List String) :
    (stateAfter r .initial (a ++ b)).firstOverflow? =
      (stateAfter r .initial a).firstOverflow?.or (stateAfter r .initial b).firstOverflow? := by
  rw [stateAfter_append]
  obtain ⟨code, hfirst⟩ | hno := exists_firstOverflow_or_noOverflow r a
  · have hmemory : (stateAfter r .initial a).memory = (true, code) :=
      memory_stateAfter_of_first rfl hfirst
    have hseen := (State.memory_eq_iff.mp hmemory).1
    rw [firstOverflow?_congr (memory_stateAfter_of_overflowed hseen),
      firstOverflow?_stateAfter.mpr hfirst, Option.some_or]
  · have hclean : (stateAfter r .initial a).memory = State.initial.memory :=
      memory_stateAfter_of_noOverflow hno
    rw [show (stateAfter r .initial a).firstOverflow? = none from firstOverflow?_congr hclean,
      Option.none_or]
    apply firstOverflow?_congr
    obtain ⟨code, hfirst⟩ | hno := exists_firstOverflow_or_noOverflow r b
    · rw [memory_stateAfter_of_first (State.memory_eq_iff.mp hclean).1 hfirst,
        memory_stateAfter_of_first rfl hfirst]
    · rw [memory_stateAfter_of_noOverflow hno, memory_stateAfter_of_noOverflow hno, hclean]

/-- The entry at the end is that of the last lines, if one of them is rebased. -/
theorem entry_stateAfter_append (hr : r.fault? = none) (a b : List String) :
    (stateAfter r .initial (a ++ b)).entry =
      if (summary r .initial b).matched = 0 then (stateAfter r .initial a).entry
      else (stateAfter r .initial b).entry := by
  have hmatched : (summary r .initial b).matched = (b.filterMap r.rebased?).length :=
    count_outcomes hr .initial b
  rw [stateAfter_append, entry_stateAfter hr, entry_stateAfter hr .initial b]
  by_cases hnone : b.filterMap r.rebased? = []
  · rw [if_pos (by rw [hmatched, hnone, List.length_nil]), hnone]
    rfl
  · rw [if_neg (by rwa [hmatched, List.length_eq_zero_iff])]
    rw [List.getLast?_eq_some_getLast hnone, Option.getD_some, Option.getD_some]

end Reference

namespace Pass

variable {rules : Rules}

/-- The pass wrote and announced the entries of lines, and came to its end, or to an error. -/
structure Went (rules : Rules) (lines : List String) (stop? : Option PassError) (r : Report Sink) :
    Prop where
  result : r.result = stop?.elim (.ok (summary rules .initial lines)) .error
  events : r.events = Reference.events rules .initial 0 lines ++
    if stop? = none then [.flushed, .finished (summary rules .initial lines)] else []
  taken : r.sink.taken.toList = (entries rules State.initial.entry lines).flatMap Entry.bytes

theorem went_of_stops (hrules : rules.fault? = none) {text : String} {source : Source}
    (hsource : source.Delivers (Utf8.encode text)) {lines : List String} {stop? : Option PassError}
    (h : Stops rules .initial ((Text.linesOf text).map Utf8.encode) lines stop?) :
    Went rules lines stop? (run rules source Sink.perfect) := by
  rw [← linesOf_encode] at h
  obtain ⟨hresult, -, hevents, htaken, -⟩ :=
    ((run_refines rules hsource Sink.accepting_perfect).2 hrules).2 lines stop? h
  refine ⟨hresult, hevents, htaken.trans ?_⟩
  rw [← map_entry_states hrules, List.flatMap_map]
  rfl

section

variable {la lb : List String} {stop? : Option PassError} {p q r : Report Sink} {s : Summary}
  (hp : Went rules la none p) (hq : Went rules lb stop? q)
  (hr : Went rules (la ++ lb) (stop?.map (PassError.behind la.length)) r) (hs : p.result = .ok s)
include hp hq hr hs

/-- What is written for the second lines is what is written for them alone, but for those before the
first that is rebased. -/
theorem Went.taken_append (hrules : rules.fault? = none) : ∃ rest : List Entry,
    q.sink.taken.toList =
      (List.replicate (echoed rules lb) State.initial.entry ++ rest).flatMap Entry.bytes ∧
    r.sink.taken.toList = p.sink.taken.toList ++
      (List.replicate (echoed rules lb) s.state.entry ++ rest).flatMap Entry.bytes := by
  cases hp.result.symm.trans hs
  obtain ⟨rest, hrest⟩ := exists_entries_eq rules lb
  refine ⟨rest, ?_, ?_⟩
  · rw [hq.taken, hrest]
  · rw [hr.taken, hp.taken, entries_append hrules, hrest, List.flatMap_append]
    rfl

/-- What stops the second pass stops the pass over both, further on. -/
theorem Went.error_append {e : PassError} (he : q.result = .error e) :
    r.result = .error (e.behind s.lines) := by
  cases hp.result.symm.trans hs
  cases stop? with
  | none => cases hq.result.symm.trans he
  | some fault =>
    cases hq.result.symm.trans he
    exact hr.result

/-- The summary of both passes adds up those of the one and the other. -/
theorem Went.summary_append (hrules : rules.fault? = none) {s' : Summary}
    (hs' : q.result = .ok s') :
    ∃ s'', r.result = .ok s'' ∧
      s''.lines = s.lines + s'.lines ∧ s''.matched = s.matched + s'.matched ∧
      s''.state.firstOverflow? = s.state.firstOverflow?.or s'.state.firstOverflow? ∧
      s''.state.entry = if s'.matched = 0 then s.state.entry else s'.state.entry := by
  cases hp.result.symm.trans hs
  cases stop? with
  | some fault => cases hq.result.symm.trans hs'
  | none =>
    cases hq.result.symm.trans hs'
    exact ⟨_, hr.result, List.length_append, matched_append hrules la lb,
      firstOverflow?_append rules la lb, entry_stateAfter_append hrules la lb⟩

end

/-- **Passes over two tables in a row.** A table that is empty or ends with a line feed is followed
by another. If the pass over the first fails, so does that over both, with the same error, and it
has done and written the same. If not, both tables together fail with a negative index just where
the second does, further on by the lines of the first. If neither fails, the lines and the rebased
ones add up, the first overflow is that of the first table, or else that of the second, and the
entry at the end is that of the second table, or that of the first if the second rebases nothing. In
any case what is written for the second table is what is written for it alone, but for the lines
before the first that is rebased: for these the last entry of the first table is written. -/
theorem run_append (hrules : rules.fault? = none) {a b : String}
    (ha : a = "" ∨ ∃ front, a = front ++ "\n") {sourceA sourceB source : Source}
    (hsourceA : sourceA.Delivers (Utf8.encode a)) (hsourceB : sourceB.Delivers (Utf8.encode b))
    (hsource : source.Delivers (Utf8.encode (a ++ b))) :
    let p := run rules sourceA Sink.perfect
    let q := run rules sourceB Sink.perfect
    let r := run rules source Sink.perfect
    let k := echoed rules (Text.linesOf b)
    (∀ e, p.result = .error e →
      r.result = .error e ∧ r.events = p.events ∧ r.sink.taken.toList = p.sink.taken.toList) ∧
    ∀ s, p.result = .ok s →
      (∃ rest : List Entry,
        q.sink.taken.toList =
          (List.replicate k State.initial.entry ++ rest).flatMap Entry.bytes ∧
        r.sink.taken.toList = p.sink.taken.toList ++
          (List.replicate k s.state.entry ++ rest).flatMap Entry.bytes) ∧
      (∀ e, q.result = .error e → ∃ line index, e = .negativeIndex line index ∧
        r.result = .error (.negativeIndex (s.lines + line) index)) ∧
      ∀ s', q.result = .ok s' → ∃ s'', r.result = .ok s'' ∧
        s''.lines = s.lines + s'.lines ∧ s''.matched = s.matched + s'.matched ∧
        s''.state.firstOverflow? = s.state.firstOverflow?.or s'.state.firstOverflow? ∧
        s''.state.entry = if s'.matched = 0 then s.state.entry else s'.state.entry := by
  intro p q r k
  have hlines : (Text.linesOf (a ++ b)).map Utf8.encode =
      (Text.linesOf a).map Utf8.encode ++ (Text.linesOf b).map Utf8.encode := by
    rw [← linesOf_encode, ← linesOf_encode, ← linesOf_encode, Utf8.encode_append,
      linesOf_append_of_closed (closed_encode ha)]
  obtain ⟨la, stopA, hstopsA⟩ := exists_stops rules .initial ((Text.linesOf a).map Utf8.encode)
  obtain ⟨lb, stopB, hstopsB⟩ := exists_stops rules .initial ((Text.linesOf b).map Utf8.encode)
  have hp : Went rules la stopA p := went_of_stops hrules hsourceA hstopsA
  have hq : Went rules lb stopB q := went_of_stops hrules hsourceB hstopsB
  cases stopA with
  | some fault =>
    have hr : Went rules la (some fault) r :=
      went_of_stops hrules hsource (by rw [hlines]; exact hstopsA.append_right _)
    refine ⟨fun e he => ⟨?_, hr.events.trans hp.events.symm, hr.taken.trans hp.taken.symm⟩,
      fun s hs => ?_⟩
    · exact (hr.result.trans hp.result.symm).trans he
    · cases hp.result.symm.trans hs
  | none =>
    have hr : Went rules (la ++ lb) (stopB.map (PassError.behind la.length)) r :=
      went_of_stops hrules hsource (by rw [hlines]; exact hstopsA.append hrules hstopsB)
    refine ⟨fun e he => ?_, fun s hs => ⟨?_, fun e he => ?_, fun s' hs' => ?_⟩⟩
    · cases hp.result.symm.trans he
    · have hk : k = echoed rules lb := hstopsB.echoed_eq hrules
      rw [hk]
      exact hp.taken_append hq hr hs hrules
    · have hboth := hp.error_append hq hr hs he
      -- Over texts a negative index is the only thing that stops a pass.
      obtain ⟨rfl, -⟩ | ⟨line, rest, index, -, -, rfl⟩ := hstopsB.of_texts hrules
      · cases hq.result.symm.trans he
      · cases hq.result.symm.trans he
        exact ⟨_, _, rfl, hboth⟩
    · exact hp.summary_append hq hr hs hrules hs'

/-- The second table has one line that is passed over, and then one that is rejected. -/
theorem run_append_rejected :
    let rules : Rules := ⟨512, 0xBFB0, 0x10000, .reject⟩
    let a := "49200, /* (0xC030) */\n"
    let b := "no entry\n7, /* (0x7) */"
    let source (text : String) : Source := .ofBytes (Utf8.encode text)
    (run rules (source b) Sink.perfect).result = .error (.negativeIndex 2 (-49065)) ∧
      (run rules (source (a ++ b)) Sink.perfect).result = .error (.negativeIndex 3 (-49065)) ∧
      ∃ rest : List Entry,
        (run rules (source b) Sink.perfect).sink.taken.toList =
          (⟨0, "0x0000"⟩ :: rest).flatMap Entry.bytes ∧
        (run rules (source (a ++ b)) Sink.perfect).sink.taken.toList =
          Entry.bytes ⟨128, "0xC030"⟩ ++ (⟨128, "0xC030"⟩ :: rest).flatMap Entry.bytes := by
  intro rules a b source
  have hfirst : (run rules (source a) Sink.perfect).result =
        .ok ⟨1, 1, ⟨128, "0xC030", false, "0x0000"⟩⟩ ∧
      (run rules (source a) Sink.perfect).sink.taken.toList = Entry.bytes ⟨128, "0xC030"⟩ := by
    decide +kernel
  have hsecond :
      (run rules (source b) Sink.perfect).result = .error (.negativeIndex 2 (-49065)) := by
    decide +kernel
  have hk : echoed rules (Text.linesOf b) = 1 := by decide +kernel
  obtain ⟨-, hthen⟩ := run_append (show rules.fault? = none by decide) (a := a) (b := b)
    (.inr ⟨"49200, /* (0xC030) */", rfl⟩) (Source.delivers_ofBytes _) (Source.delivers_ofBytes _)
    (Source.delivers_ofBytes _)
  obtain ⟨⟨rest, hb, hab⟩, hfails, -⟩ := hthen _ hfirst.1
  rw [hk] at hb hab
  rw [hfirst.2] at hab
  obtain ⟨line, index, he, hboth⟩ := hfails _ hsecond
  cases he
  exact ⟨hsecond, hboth, rest, hb, hab⟩

end Pass

end GlyphRebase
