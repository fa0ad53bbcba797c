import GlyphRebase.Proofs.Reference

/-!
# Passes that fail

A pass fails at the first thing that goes wrong. Of each line it sees first whether it can be read,
then whether the rules reject it, then whether its entry is written, and after the last line it
flushes (`Reference.EndsFrom`). Whether an entry is written is for what the pass writes to to say.

`Pass.run_eq_error_iff`: a pass ends with an error just if it is the error of what goes wrong first,
whatever else is wrong with the lines behind, and what it writes to is left as it was then.
-/

namespace GlyphRebase

namespace Reference

/-- At which line a pass from a summary on fails, by the texts in front of it, and with which
error. -/
inductive FailsAt (rules : Rules) (before : Summary) (items : List (Except StreamFault String)) :
    List String → PassError → Prop where
  /-- At a line that cannot be read, or is no text. -/
  | unread {texts : List String} {fault : StreamFault} {rest : List (Except StreamFault String)}
      (hitems : items = texts.map .ok ++ .error fault :: rest)
      (haccepted : Accepted rules before.state texts) :
      FailsAt rules before items texts (.read fault)
  /-- At a line that is rejected. -/
  | negative {texts : List String} {line : String} {rest : List (Except StreamFault String)}
      (hitems : items = texts.map .ok ++ .ok line :: rest)
      (haccepted : Accepted rules before.state texts)
      (hrejected : Rejected rules (stateAfter rules before.state texts) line) :
      FailsAt rules before items texts (.negativeIndex (before.lines + texts.length + 1)
        (stateAfter rules before.state (texts ++ [line])).index)

section

variable {σ : Type} [Writable σ]

/-- With which error a pass over lines ends, from a summary on, and how it leaves what it writes to.
The lines in front are texts, none of which is rejected, and their entries are written. -/
inductive EndsFrom (rules : Rules) (before : Summary) (w : σ)
    (items : List (Except StreamFault String)) : PassError → σ → Prop where
  /-- A line cannot be read, is no text, or is rejected. -/
  | atLine (texts : List String) {e : PassError} {w' : σ}
      (hline : FailsAt rules before items texts e)
      (hwrites : Writes w (outputEntries rules before.state texts) w') :
      EndsFrom rules before w items e w'
  /-- The entry of a line cannot be written. -/
  | atEntry (texts : List String) {line : String} {rest : List (Except StreamFault String)}
      {w₁ w' : σ} {fault : StreamFault} (hitems : items = texts.map .ok ++ .ok line :: rest)
      (haccepted : Accepted rules before.state (texts ++ [line]))
      (hwrites : Writes w (outputEntries rules before.state texts) w₁)
      (hfault : Writable.writeAll w₁
        (stateAfter rules before.state (texts ++ [line])).entry.bytes = (.error fault, w')) :
      EndsFrom rules before w items (.write fault) w'
  /-- All entries are written, and the flush fails. -/
  | atFlush (texts : List String) {w₁ w' : σ} {fault : StreamFault}
      (hitems : items = texts.map .ok) (haccepted : Accepted rules before.state texts)
      (hwrites : Writes w (outputEntries rules before.state texts) w₁)
      (hfault : Writable.flush w₁ = (.error fault, w')) :
      EndsFrom rules before w items (.write fault) w'

/-- With which error a pass over lines ends, and how it leaves what it writes to. -/
inductive Ends (rules : Rules) (w : σ) (items : List (Except StreamFault String)) :
    PassError → σ → Prop where
  /-- The rules cannot be applied, whatever the lines are. -/
  | invalidRules {reason : String} (hrules : rules.fault? = some reason) :
      Ends rules w items (.invalidRules reason) w
  /-- Something is wrong with the lines. -/
  | inLines {e : PassError} {w' : σ} (hrules : rules.fault? = none)
      (hends : EndsFrom rules .initial w items e w') : Ends rules w items e w'

end

variable {rules : Rules} {before : Summary} {items : List (Except StreamFault String)}
  {texts : List String} {line : String} {e : PassError}

/-- A line in front that is not rejected does not change at which line the pass fails. -/
theorem FailsAt.cons (hline : ¬Rejected rules before.state line)
    (h : FailsAt rules (before.advance line rules) items texts e) :
    FailsAt rules before (.ok line :: items) (line :: texts) e := by
  cases h with
  | unread hitems haccepted =>
    rw [Summary.advance_state] at haccepted
    exact .unread (congrArg (_ :: ·) hitems) (accepted_cons_iff.mpr ⟨hline, haccepted⟩)
  | negative hitems haccepted hrejected =>
    have hnumber : (before.advance line rules).lines + texts.length + 1 =
        before.lines + (line :: texts).length + 1 := by
      rw [Summary.advance_lines, List.length_cons]
      omega
    rw [Summary.advance_state] at haccepted hrejected
    rw [hnumber, Summary.advance_state]
    exact .negative (congrArg (_ :: ·) hitems) (accepted_cons_iff.mpr ⟨hline, haccepted⟩) hrejected

theorem Accepted.of_append {s : State} {a b : List String} (h : Accepted rules s (a ++ b)) :
    Accepted rules s a := by
  intro before line after ha
  exact h before line (after ++ b) (by simp [ha])

section

variable {σ : Type} [Writable σ] {w w₁ w' : σ}

/-- A line in front that is not rejected, and whose entry is written, does not change how the pass
ends. -/
theorem EndsFrom.cons (hline : ¬Rejected rules before.state line)
    (hfirst : Writable.writeAll w (before.state.advance line rules).1.entry.bytes = (.ok (), w₁))
    (h : EndsFrom rules (before.advance line rules) w₁ items e w') :
    EndsFrom rules before w (.ok line :: items) e w' := by
  cases h with
  | atLine texts hfails hwrites =>
    rw [Summary.advance_state] at hwrites
    exact .atLine (line :: texts) (hfails.cons hline) (.cons hfirst hwrites)
  | atEntry texts hitems haccepted hwrites hfault =>
    rw [Summary.advance_state] at haccepted hwrites hfault
    exact .atEntry (line :: texts) (congrArg (_ :: ·) hitems)
      (accepted_cons_iff.mpr ⟨hline, haccepted⟩)
      (.cons hfirst hwrites) hfault
  | atFlush texts hitems haccepted hwrites hfault =>
    rw [Summary.advance_state] at haccepted hwrites
    exact .atFlush (line :: texts) (congrArg (_ :: ·) hitems)
      (accepted_cons_iff.mpr ⟨hline, haccepted⟩)
      (.cons hfirst hwrites) hfault

/-- A pass by itself knows of no paths. -/
theorem Ends.ne_file (h : Ends rules w items e w') (path : String) (fault : StreamFault) :
    e ≠ .file path fault := by
  rintro rfl
  cases h with
  | inLines _ hends =>
    cases hends with
    | atLine _ hline => cases hline

end

end Reference

namespace Pass

open Reference

variable {σ : Type} [Writable σ] {rules : Rules} {before : Summary} {w w' : σ}
  {items : List (Except StreamFault String)} {e : PassError}

theorem close_of_fault {fault : StreamFault} (before : Summary) (source : Source)
    (h : Writable.flush w = (.error fault, w')) :
    (close before source w).seen = ⟨.error (.write fault), [], w'⟩ := by
  rw [close, h]
  rfl

/-- A pass over lines that ends with an error came to something that is wrong. -/
theorem endsFrom_of_overLines (h : (overLines rules before w items).result = .error e) :
    EndsFrom rules before w items e (overLines rules before w items).sink := by
  induction items generalizing before w with
  | nil =>
    rcases hflush : Writable.flush w with ⟨fault | _, w₁⟩
    · rw [overLines, close_of_fault _ _ hflush] at h ⊢
      cases h
      exact .atFlush [] rfl .nil (.nil w) hflush
    · rw [overLines, close, hflush] at h
      cases h
  | cons item items ih =>
    cases item with
    | error fault =>
      cases h
      exact .atLine [] (.unread rfl .nil) (.nil w)
    | ok line =>
      by_cases hline : Rejected rules before.state line
      · rw [overLines, process_of_rejected before hline] at h ⊢
        cases h
        exact .atLine [] (.negative rfl .nil hline) (.nil w)
      · rcases hwrite : Writable.writeAll w (before.state.advance line rules).1.entry.bytes with
          ⟨fault | _, w₁⟩
        · rw [overLines, process_of_unwritten hline hwrite] at h ⊢
          cases h
          have haccepted : Accepted rules before.state [line] :=
            accepted_cons_iff.mpr ⟨hline, .nil⟩
          exact .atEntry [] rfl haccepted (.nil w) hwrite
        · rw [overLines, process_of_written hline hwrite] at h ⊢
          exact (ih h).cons hline hwrite

/-- What goes wrong first ends the pass over lines. -/
theorem overLines_of_endsFrom (h : EndsFrom rules before w items e w') :
    (overLines rules before w items).result = .error e ∧
      (overLines rules before w items).sink = w' := by
  have hstate := Summary.through_state before rules
  cases h with
  | atLine texts hline hwrites =>
    cases hline with
    | unread hitems haccepted =>
      rw [hitems, overLines_of_writes before haccepted hwrites]
      exact ⟨rfl, rfl⟩
    | negative hitems haccepted hrejected =>
      rw [← hstate] at hrejected
      rw [hitems, overLines_of_writes before haccepted hwrites, overLines,
        process_of_rejected _ hrejected, hstate, stateAfter_append, Summary.through_eq]
      exact ⟨rfl, rfl⟩
  | @atEntry texts line _ _ _ _ hitems haccepted hwrites hfault =>
    have hline : ¬Rejected rules (before.through rules texts).state line := by
      rw [hstate]
      exact haccepted texts line [] rfl
    rw [stateAfter_append, ← hstate] at hfault
    rw [hitems, overLines_of_writes before haccepted.of_append hwrites, overLines,
      process_of_unwritten hline hfault]
    exact ⟨rfl, rfl⟩
  | atFlush texts hitems haccepted hwrites hfault =>
    have hover := overLines_of_writes before haccepted hwrites []
    rw [List.append_nil] at hover
    rw [hitems, hover, overLines, close_of_fault _ _ hfault]
    exact ⟨rfl, rfl⟩

/-- **A pass ends with an error just if something goes wrong, and with that of the first thing**:
the rules, and then the lines in their order. It leaves what it writes to as it was then. -/
theorem run_eq_error_iff {source : Source} :
    (run rules source w).result = .error e ∧ (run rules source w).sink = w' ↔
      Ends rules w source.lines e w' := by
  cases hrules : rules.fault? with
  | some reason =>
    have hreport : run rules source w = .failed (.invalidRules reason) source w := by
      rw [run, hrules]
    rw [hreport]
    constructor
    · rintro ⟨⟨⟩, rfl⟩
      exact .invalidRules hrules
    · rintro (hreason | ⟨hnone, -⟩)
      · rw [hrules] at hreason
        cases hreason
        exact ⟨rfl, rfl⟩
      · rw [hrules] at hnone
        cases hnone
  | none =>
    rw [run_result_eq hrules, run_sink_eq hrules]
    constructor
    · rintro ⟨h, rfl⟩
      exact .inLines hrules (endsFrom_of_overLines h)
    · rintro (hreason | ⟨-, hends⟩)
      · rw [hrules] at hreason
        cases hreason
      · exact overLines_of_endsFrom hends

end Pass

end GlyphRebase
