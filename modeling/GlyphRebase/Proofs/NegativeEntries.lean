import GlyphRebase.Proofs.Advance
import GlyphRebase.Proofs.AnyOutput

/-!
# Negative entries

What the policy for negative indices decides. A line brings up a negative index exactly if it is
rebased and its index is not special and lies below the offset (`Rules.NegativeAt`); wrapping, the
special entry and lines that are passed over bring up none. So two passes over the same lines, one
that rejects negative indices and one that allows them, do the same up to the first such line.

If the pass that allows them does not come to this line, because a line before it cannot be read or
an entry before it cannot be written, the two are the same in everything. Otherwise the pass that
rejects them is the other one, cut there (`Course.CutAt`).
-/

namespace GlyphRebase

open Reference

namespace Rules

/-- The rules under another policy. -/
def under (r : Rules) (policy : NegativePolicy) : Rules := { r with negative := policy }

/-- The line is rebased and its index falls below zero. -/
def NegativeAt (r : Rules) (line : String) (e : Entry) : Prop :=
  r.Rebases line e ∧ e.index ≠ r.special ∧ e.index.toInt < r.offset.toInt

@[simp] theorem fault?_under (r : Rules) (policy : NegativePolicy) :
    (r.under policy).fault? = r.fault? := rfl

theorem advance_under (r : Rules) (policy : NegativePolicy) (s : State) (line : String) :
    s.advance line (r.under policy) = s.advance line r := rfl

end Rules

namespace Summary

variable {r : Rules} {before : Summary} {line : String}

/-- The policy has no part in what a line leads to. -/
theorem advance_under (policy : NegativePolicy) :
    before.advance line (r.under policy) = before.advance line r := rfl

theorem rejects_under_allow : before.rejects line (r.under .allow) = false := by
  rw [Bool.eq_false_iff, ne_eq, rejects_iff]
  intro h
  cases h.1

/-- The policy that rejects negative indices stops at exactly the lines that bring up one. -/
theorem rejects_under_reject_iff (hr : r.fault? = none) :
    before.rejects line (r.under .reject) = true ↔ ∃ e, r.NegativeAt line e := by
  rw [rejects_iff, Rejected, Rules.advance_under]
  obtain ⟨hadvance, hno⟩ | ⟨e, next, hadvance, hrebases, hnext⟩ := before.state.advance_cases line r
  · rw [hadvance]
    constructor
    · rintro ⟨-, h, -⟩
      cases h
    · rintro ⟨e, he, -⟩
      exact absurd he (hno e)
  · have hneg : next.index < 0 ↔ e.index ≠ r.special ∧ e.index.toInt < r.offset.toInt := by
      rw [Int64.lt_iff_toInt_lt, hnext.index hr, Int64.toInt_zero]
      exact Rules.moved_neg_iff hr (Entry.index_nonneg hrebases.1)
    rw [hadvance]
    constructor
    · rintro ⟨-, -, h⟩
      exact ⟨e, hrebases, hneg.mp h⟩
    · rintro ⟨e', he', h⟩
      rw [← hrebases.unique he'] at h
      exact ⟨rfl, rfl, hneg.mpr h⟩

/-- The index that such a line leads to. -/
theorem advance_index_of_negativeAt (before : Summary) {e : Entry} (hr : r.fault? = none)
    (h : r.NegativeAt line e) :
    (before.advance line r).state.index.toInt = e.index.toInt - r.offset.toInt := by
  obtain ⟨hrebases, hspecial, hlt⟩ := h
  have hb := Rules.fault?_eq_none_iff.mp hr
  rw [advance_state, (hrebases.follows before.state).index hr,
    Rules.moved_of_below hspecial (by omega)]

end Summary

/-! ### A course cut short -/

/-- The one course stops with an error where the other goes on to write its entry `n + 1`: it did
what the other did for the `n` lines before, and nothing else. -/
structure Course.CutAt {σ : Type} (o : Output σ) (s : σ) (n : Nat) (e : PassError)
    (cut whole : Course σ) : Prop where
  result : cut.result = .error e
  steps : cut.steps = whole.steps.take n
  written : cut.written = whole.written.take n
  unflushed : .flushed ∉ cut.events
  unfinished : cut.finished? = none
  /-- The output is what the writing of these entries made of it. -/
  output : cut.output = o.writeEach s (whole.written.take n)
  /-- It has taken their bytes, all of them. -/
  taken : o.taken cut.output = o.taken s ++ (whole.written.take n).flatMap Entry.bytes

namespace Pass

variable {σ : Type} {o : Output σ} {r : Rules}

/-- A course that stops at once is cut before anything is written. -/
theorem cutAt_stopped (s : σ) (e : PassError) (whole : Course σ) :
    Course.CutAt o s 0 e (.stopped e s) whole where
  result := rfl
  steps := rfl
  written := rfl
  unflushed := List.not_mem_nil
  unfinished := rfl
  output := rfl
  taken := (List.append_nil _).symm

/-- One more line that both write. -/
theorem cutAt_after {s s' : σ} {n : Nat} {e : PassError} {cut whole : Course σ} {step : Step}
    (hw : o.writeAll s step.state.entry.bytes = (.ok (), s'))
    (h : Course.CutAt o s' n e cut whole) :
    Course.CutAt o s (n + 1) e (cut.after step) (whole.after step) where
  result := h.result
  steps := congrArg (step :: ·) h.steps
  written := congrArg (step.state.entry :: ·) h.written
  unflushed := by
    simp only [Course.after, List.mem_cons, reduceCtorEq, false_or]
    exact h.unflushed
  unfinished := h.unfinished
  output := by
    rw [Course.written_after, List.take_succ_cons, Output.writeEach, List.foldl_cons, hw]
    exact h.output
  taken := by
    rw [Course.written_after, List.take_succ_cons, List.flatMap_cons, ← List.append_assoc,
      ← o.taken_of_writeAll hw]
    exact h.taken

section
variable (hr : r.fault? = none)
include hr

/-- A line that brings up no negative index is written under either policy. -/
theorem into_under_cons {line : String} (h : ∀ e, ¬r.NegativeAt line e) (policy : NegativePolicy)
    (before : Summary) (s : σ) (items : List (Except StreamFault String)) :
    into o (r.under policy) before s (.ok line :: items) =
      match o.writeAll s (before.advance line r).state.entry.bytes with
      | (.ok (), s) =>
        (into o (r.under policy) (before.advance line r) s items).after
          ⟨(before.advance line r).lines, (before.advance line r).state⟩
      | (.error fault, s) => .stopped (.write fault) s := by
  have hrejects : before.rejects line (r.under policy) = false := by
    cases policy with
    | allow => exact Summary.rejects_under_allow
    | reject =>
      rw [Bool.eq_false_iff, ne_eq, Summary.rejects_under_reject_iff hr]
      exact not_exists.mpr h
  rw [into, hrejects]
  rfl

/-- Over lines that bring up no negative index the policy makes no difference. -/
theorem into_reject_eq_allow {items : List (Except StreamFault String)}
    (h : ∀ line, .ok line ∈ items → ∀ e, ¬r.NegativeAt line e) (before : Summary) (s : σ) :
    into o (r.under .reject) before s items = into o (r.under .allow) before s items := by
  induction items generalizing before s with
  | nil => rfl
  | cons item items ih =>
    cases item with
    | error fault => rfl
    | ok line =>
      have hline := h line (List.mem_cons_self ..)
      have hitems := ih fun l hl => h l (List.mem_cons_of_mem _ hl)
      simp only [into_under_cons hr hline, hitems]

/-- **The first negative index.** Either the policy makes no difference, for the pass ends with an
error on the lines in front; or the pass that rejects negative indices is the other one, cut at the
line. -/
theorem into_reject_cutAt {line : String} {e : Entry} (hline : r.NegativeAt line e)
    {front : List (Except StreamFault String)} (after : List (Except StreamFault String))
    (hfront : ∀ l, .ok l ∈ front → ∀ e', ¬r.NegativeAt l e') (before : Summary) (s : σ) :
    let reject := into o (r.under .reject) before s (front ++ .ok line :: after)
    let allow := into o (r.under .allow) before s (front ++ .ok line :: after)
    (allow.steps.length < front.length ∧ (∃ error, allow.result = .error error) ∧ reject = allow) ∨
      (front.length ≤ allow.steps.length ∧ ∃ i : Int64,
        i.toInt = e.index.toInt - r.offset.toInt ∧
        Course.CutAt o s front.length (.negativeIndex (before.lines + front.length + 1) i)
          reject allow) := by
  induction front generalizing before s with
  | nil =>
    have hrejects : before.rejects line (r.under .reject) = true :=
      (Summary.rejects_under_reject_iff hr).mpr ⟨e, hline⟩
    have hindex := before.advance_index_of_negativeAt hr hline
    refine .inr ⟨Nat.zero_le _, (before.advance line r).state.index, hindex, ?_⟩
    rw [List.nil_append, into, if_pos hrejects, Summary.advance_under, Summary.advance_lines]
    exact cutAt_stopped ..
  | cons item front ih =>
    cases item with
    | error fault => exact .inl ⟨Nat.zero_lt_succ _, ⟨_, rfl⟩, rfl⟩
    | ok l =>
      have hl := hfront l (List.mem_cons_self ..)
      simp only [List.cons_append, into_under_cons hr hl]
      rcases hw : o.writeAll s (before.advance l r).state.entry.bytes with ⟨fault | _, s'⟩
      · exact .inl ⟨Nat.zero_lt_succ _, ⟨_, rfl⟩, rfl⟩
      · obtain ⟨hlen, herror, heq⟩ | ⟨hlen, i, hi, hcut⟩ :=
          ih (fun l' hl' => hfront l' (List.mem_cons_of_mem _ hl')) (before.advance l r) s'
        · exact .inl ⟨Nat.succ_lt_succ hlen, herror, congrArg (Course.after _) heq⟩
        · refine .inr ⟨Nat.succ_le_succ hlen, i, hi, ?_⟩
          rw [Summary.advance_lines, Nat.add_right_comm before.lines 1] at hcut
          exact cutAt_after hw hcut

end

/-- **Rejecting negative indices is allowing them, cut at the first.** Under rules that can be
applied, over any source and into any output: without a negative index the two passes take the same
course. Otherwise take the first line that brings one up. If the pass that allows it has not written
and announced the lines in front of it, then it has ended with an error on one of these, and the
other pass takes the same course. If it has, it goes on to write the entry of the line, and there
the other pass is cut: it ends with the number of the line and the index, the difference of the
index and the offset. The pass into a sink is a pass into an output. -/
theorem reject_cuts_allow (hrules : r.fault? = none) (source : Source) (o : Output σ) (s : σ) :
    let allow := runInto o (r.under .allow) source s
    let reject := runInto o (r.under .reject) source s
    ((∀ line, .ok line ∈ source.lines → ∀ e, ¬r.NegativeAt line e) → reject = allow) ∧
      (∀ front line after e, source.lines = front ++ .ok line :: after → r.NegativeAt line e →
        (∀ l, .ok l ∈ front → ∀ e', ¬r.NegativeAt l e') →
        (allow.steps.length < front.length →
          (∃ error, allow.result = .error error) ∧ reject = allow) ∧
        (front.length ≤ allow.steps.length → ∃ i : Int64,
          i.toInt = e.index.toInt - r.offset.toInt ∧
          Course.CutAt o s front.length (.negativeIndex (front.length + 1) i) reject allow)) ∧
      ∀ policy sink, (run (r.under policy) source sink).course =
        runInto .ofSink (r.under policy) source sink := by
  simp only [runInto, Rules.fault?_under, hrules]
  refine ⟨fun h => into_reject_eq_allow hrules h .initial s, ?_, fun policy sink => ?_⟩
  · intro front line after e hlines hline hfront
    rw [hlines]
    obtain ⟨hlen, herror, heq⟩ | ⟨hlen, i, hi, hcut⟩ :=
      into_reject_cutAt hrules hline after hfront .initial s (o := o)
    · exact ⟨fun _ => ⟨herror, heq⟩, fun hle => absurd hlen (Nat.not_lt.mpr hle)⟩
    · refine ⟨fun hlt => absurd hlen (Nat.not_le.mpr hlt), fun _ => ⟨i, hi, ?_⟩⟩
      rwa [Summary.initial, Nat.zero_add] at hcut
  · have hcourse := run_course (r.under policy) source sink
    rwa [runInto, Rules.fault?_under, hrules] at hcourse

/-- The third line brings up a negative index; the line before it holds no entry, and the line after
it is not written. -/
theorem reject_cuts_allow_at_third_line :
    let rules := Rules.standard
    let front := ["49200, /* (0xC030) */", "garbage"]
    let source := Source.ofBytes (Utf8.encode
      "49200, /* (0xC030) */\ngarbage\n100, /* (0x0064) */\n512, /* (0x0200) */\n")
    let allow := runInto .ofSink (rules.under .allow) source .perfect
    let reject := runInto .ofSink (rules.under .reject) source .perfect
    rules.fault? = none ∧ rules.NegativeAt "100, /* (0x0064) */" ⟨100, "0x0064"⟩ ∧
      (∀ line ∈ front, ∀ e, ¬rules.NegativeAt line e) ∧ front.length ≤ allow.steps.length ∧
      reject.result = .error (.negativeIndex 3 (-48972)) ∧
      reject.output.taken.toList = Utf8.encode "  128,\t/* 0xC030 */\n  128,\t/* 0xC030 */\n" ∧
      reject.output.flushes = 0 ∧
      (run (rules.under .reject) source Sink.perfect).course = reject := by
  intro rules front source allow reject
  have hline : rules.NegativeAt "100, /* (0x0064) */" ⟨100, "0x0064"⟩ :=
    ⟨Rules.rebases_iff.mpr ⟨by decide +kernel, .inr (by decide)⟩, by decide, by decide⟩
  have hfirst : Entry.ofLine? "49200, /* (0xC030) */" = some ⟨49200, "0xC030"⟩ := by decide +kernel
  have hsecond : Entry.ofLine? "garbage" = none := by decide +kernel
  have hfront : ∀ line ∈ front, ∀ e, ¬rules.NegativeAt line e := by
    intro line hmem e he
    simp only [front, List.mem_cons, List.not_mem_nil, or_false] at hmem
    rcases hmem with rfl | rfl
    · have heq := he.1.1.symm.trans hfirst
      cases heq
      exact absurd he.2.2 (by decide)
    · have heq := he.1.1.symm.trans hsecond
      cases heq
  have hlines : source.lines = front.map .ok ++ .ok "100, /* (0x0064) */" ::
      [.ok "512, /* (0x0200) */"] := by decide +kernel
  have hwritten : front.length ≤ allow.steps.length := by decide +kernel
  obtain ⟨-, hcut, hcourse⟩ := reject_cuts_allow (r := rules) rfl source .ofSink .perfect
  obtain ⟨-, hcut⟩ := hcut (front.map .ok) _ _ _ hlines hline (by simpa using hfront)
  obtain ⟨i, hi, hcut⟩ := hcut hwritten
  have hindex : i = -48972 := Int64.toInt_inj.mp (hi.trans (by decide))
  refine ⟨rfl, hline, hfront, hwritten, ?_, ?_, ?_, hcourse .reject .perfect⟩
  · rw [← hindex]
    exact hcut.result
  · exact hcut.taken.trans (by decide +kernel)
  · rw [hcut.output]
    decide +kernel

end Pass

end GlyphRebase
