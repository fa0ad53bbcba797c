import GlyphRebase.FilePass
import GlyphRebase.Proofs.Walking
import Mathlib.Data.List.Basic

/-!
# The ways of a pass from file to file

A direct pass goes in one of three ways (`FilePass.DirectRun`): the input is not opened, the output
is not made, or the pass runs, into an output that was emptied before. An atomic pass goes in one of
five ways (`FilePass.AtomicRun`): the input is not opened, no temporary file is made, the pass over
the input ends with an error, the output is not replaced, or all is well.

The temporary file is made where nothing stood, so in each of the first four ways nothing is left
of it, and the tree is the one that the pass began with (`FilePass.tree_of_atomic`).
-/

namespace GlyphRebase

theorem System.attempt_eq_ok_iff {α : Type} {s : System} {r : Request} {x : Except FileFault α}
    {a : α} : s.attempt r x = .ok a ↔ s.refuses? r = none ∧ x = .ok a := by
  unfold attempt
  cases s.refuses? r with
  | some fault => simp
  | none => cases x <;> simp [Except.mapError]

namespace FilePass

variable {system : System} {rules : Rules} {input output : String} {t : FileTree}

/-- The pass over what stands at a place, into the output. -/
def passOver (system : System) (rules : Rules) (t : FileTree) (l : Location) :
    Report BufferedFile :=
  Pass.run rules (sourceAt system t l) system.target

/-- A file elsewhere makes no difference to what is read at a place. -/
theorem passOver_put_of_ne {l staged : Location} {n : Node} (h : l ≠ staged) :
    passOver system rules (t.put staged n) l = passOver system rules t l := by
  rw [passOver, sourceAt, FileTree.node?_put_of_ne h]
  rfl

/-- A pass over files succeeds just if the pass that it came out as does. -/
theorem reported_eq_ok_iff {r : Report BufferedFile} {summary : Summary} :
    (reported input output r t).result = .ok summary ↔ r.result = .ok summary := by
  rw [reported]
  cases r.result <;> simp [Except.mapError]

/-! ### The ways of a direct pass -/

/-- What a direct pass may come to, and when. -/
inductive DirectRun (system : System) (rules : Rules) (input output : String) (t : FileTree) :
    FileReport → Prop
  /-- The input is not opened. -/
  | unopened {fault} :
    system.attempt .openInput (t.look input) = .error fault →
      DirectRun system rules input output t (refused input fault t)
  /-- The output is not made. -/
  | uncreated {source fault} :
    system.attempt .openInput (t.look input) = .ok source →
      system.attempt .createOutput (t.create output) = .error fault →
      DirectRun system rules input output t (refused output fault t)
  /-- The output is emptied, or made, and the pass runs. -/
  | ran {source dir name mode} :
    system.attempt .openInput (t.look input) = .ok source →
      system.refuses? .createOutput = none →
      t.place .create output = .ok (.named dir name false) →
      ((∃ bytes, t.node? (dir ++ [name]) = some (.file bytes mode)) ∨
        t.node? (dir ++ [name]) = none ∧ mode = t.newMode) →
      DirectRun system rules input output t
        (let r := passOver system rules (t.put (dir ++ [name]) (.file [] mode)) source
        reported input output r (t.put (dir ++ [name]) (.file r.sink.contents mode)))

/-- **A direct pass** goes in one of the three ways. -/
theorem runDirect_run (system : System) (rules : Rules) (input output : String) (t : FileTree) :
    DirectRun system rules input output t (runDirect system rules input output t) := by
  unfold runDirect
  cases hopen : system.attempt .openInput (t.look input) with
  | error fault => exact .unopened hopen
  | ok source =>
    cases hcreate : system.attempt .createOutput (t.create output) with
    | error fault => exact .uncreated hopen hcreate
    | ok created =>
      obtain ⟨target, made⟩ := created
      obtain ⟨hgranted, hmade⟩ := System.attempt_eq_ok_iff.mp hcreate
      obtain ⟨dir, name, mode, hplace, rfl, rfl, hwas⟩ := FileTree.create_eq_ok hmade
      have hl : dir ++ [name] ≠ [] := by simp
      simp only [FileTree.write_put_file hl]
      exact .ran hopen hgranted hplace hwas

/-! ### The temporary file -/

/-- The permission bits of the output, or those of a new file if there is none. -/
def outputMode (t : FileTree) (output : String) : Nat := (t.mode? output).getD t.newMode

/-- The temporary file is made where nothing stood, with the permission bits of the output; if it
is not made, or does not get them, nothing is left of it. -/
theorem stageOutput_cases (system : System) (output : String) (t : FileTree) :
    (∃ fault, stageOutput system output t = (.error fault, t)) ∨
      ∃ staged, t.node? staged = none ∧
        stageOutput system output t =
          (.ok staged, t.put staged (.file [] (outputMode t output))) := by
  simp only [stageOutput]
  cases hmade : system.attempt .makeTemporary
      (t.stage (Path.ofText output).parent.toText (temporaryMode t output)) with
  | error fault => exact .inl ⟨fault, rfl⟩
  | ok made =>
    obtain ⟨staged, made⟩ := made
    obtain ⟨-, hstage⟩ := System.attempt_eq_ok_iff.mp hmade
    obtain ⟨_, _, -, -, habsent, rfl⟩ := FileTree.stage_eq_ok hstage
    have hl := FileTree.ne_nil_of_absent habsent
    cases hmode : t.mode? output with
    | none =>
      refine .inr ⟨staged, habsent, ?_⟩
      rw [temporaryMode, outputMode, hmode]
      rfl
    | some mode =>
      simp only [FileTree.setMode_put_file hl]
      cases hset : system.attempt .setPermissions (.ok (t.put staged (.file [] mode))) with
      | error fault => exact .inl ⟨fault, by simp only [FileTree.erase_put habsent]⟩
      | ok set =>
        obtain ⟨-, heq⟩ := System.attempt_eq_ok_iff.mp hset
        cases heq
        exact .inr ⟨staged, habsent, by rw [outputMode, hmode]; rfl⟩

/-! ### The ways of an atomic pass -/

/-- What an atomic pass may come to, and when. -/
inductive AtomicRun (system : System) (rules : Rules) (input output : String) (t : FileTree) :
    FileReport → Prop
  /-- The input is not opened. -/
  | unopened {fault} :
    system.attempt .openInput (t.look input) = .error fault →
      AtomicRun system rules input output t (refused input fault t)
  /-- No temporary file is made. -/
  | unstaged {source fault} :
    system.attempt .openInput (t.look input) = .ok source →
      (stageOutput system output t).1 = .error fault →
      AtomicRun system rules input output t (refused output fault t)
  /-- The pass over the input ends with an error. -/
  | stopped {source staged e} :
    system.attempt .openInput (t.look input) = .ok source →
      (stageOutput system output t).1 = .ok staged →
      (passOver system rules t source).result = .error e →
      AtomicRun system rules input output t
        (reported input output (passOver system rules t source) t)
  /-- The output is not replaced. -/
  | kept {source staged summary fault} :
    system.attempt .openInput (t.look input) = .ok source →
      (stageOutput system output t).1 = .ok staged →
      (passOver system rules t source).result = .ok summary →
      system.attempt .replaceOutput ((t.put staged (.file
        (passOver system rules t source).sink.contents (outputMode t output))).rename staged
          output) = .error fault →
      AtomicRun system rules input output t
        ⟨.error (.file output fault), (passOver system rules t source).events, t⟩
  /-- The output is replaced. -/
  | replaced {source staged summary dir name} :
    system.attempt .openInput (t.look input) = .ok source →
      (stageOutput system output t).1 = .ok staged →
      (passOver system rules t source).result = .ok summary →
      system.refuses? .replaceOutput = none →
      t.place .replace output = .ok (.named dir name false) →
      AtomicRun system rules input output t
        (reported input output (passOver system rules t source)
          (t.put (dir ++ [name]) (.file (passOver system rules t source).sink.contents
            (outputMode t output))))

/-- A temporary file that is moved to the end of a path leaves no trace where it was. -/
theorem rename_put_file {staged : Location} {bytes : List UInt8} {mode : Nat} {t' : FileTree}
    (habsent : t.node? staged = none)
    (h : (t.put staged (.file bytes mode)).rename staged output = .ok t') :
    ∃ dir name, t.place .replace output = .ok (.named dir name false) ∧
      t' = t.put (dir ++ [name]) (.file bytes mode) := by
  have hl := FileTree.ne_nil_of_absent habsent
  obtain ⟨dir, name, n, hplace, hn, -, rfl⟩ := FileTree.rename_eq_ok h
  rw [FileTree.node?_put_self hl] at hn
  cases hn
  refine ⟨dir, name, ?_, by rw [FileTree.erase_put habsent]⟩
  exact (FileTree.place_congr FileTree.put_home fun l' =>
    FileTree.passage_put_file hl (FileTree.passage_of_absent habsent)).mp hplace

/-- **An atomic pass** goes in one of the five ways. -/
theorem runAtomic_run (system : System) (rules : Rules) (input output : String) (t : FileTree) :
    AtomicRun system rules input output t (runAtomic system rules input output t) := by
  unfold runAtomic
  cases hopen : system.attempt .openInput (t.look input) with
  | error fault => exact .unopened hopen
  | ok source =>
    rcases stageOutput_cases system output t with ⟨fault, hstage⟩ | ⟨staged, habsent, hstage⟩
    · simp only [hstage]
      exact .unstaged hopen (by rw [hstage])
    · have hne := FileTree.ne_of_look (System.attempt_eq_ok_iff.mp hopen).2 habsent
      have hl := FileTree.ne_nil_of_absent habsent
      have hstaged : (stageOutput system output t).1 = .ok staged := by rw [hstage]
      simp only [hstage]
      rw [← passOver, passOver_put_of_ne hne, FileTree.write_put_file hl]
      cases hresult : (passOver system rules t source).result with
      | error e =>
        rw [FileTree.erase_put habsent]
        exact .stopped hopen hstaged hresult
      | ok summary =>
        simp only [replaceOutput]
        cases hrename : system.attempt .replaceOutput ((t.put staged (.file
            (passOver system rules t source).sink.contents (outputMode t output))).rename
              staged output) with
        | error fault =>
          rw [FileTree.erase_put habsent]
          exact .kept hopen hstaged hresult hrename
        | ok t' =>
          obtain ⟨hgranted, hmoved⟩ := System.attempt_eq_ok_iff.mp hrename
          obtain ⟨dir, name, hplace, rfl⟩ := rename_put_file habsent hmoved
          exact .replaced hopen hstaged hresult hgranted hplace

/-- **A failed atomic pass changes nothing**, whatever the reason: the tree it leaves is the tree
it began with. One that succeeds changes nothing but what its output path names, where there is a
file afterwards. -/
theorem tree_of_atomic (system : System) (rules : Rules) (input output : String) (t : FileTree) :
    let r := runOn system rules true input output t
    (∀ e, r.result = .error e → r.tree = t) ∧
    ∀ summary, r.result = .ok summary →
      ∃ dir name bytes, t.place .replace output = .ok (.named dir name false) ∧
        r.tree = t.put (dir ++ [name]) (.file bytes (outputMode t output)) := by
  have hrun := runAtomic_run system rules input output t
  rw [runOn, if_pos rfl]
  generalize runAtomic system rules input output t = r at hrun
  cases hrun with
  | unopened | unstaged | kept => exact ⟨fun _ _ => rfl, fun _ h => by cases h⟩
  | stopped _ _ herror =>
    refine ⟨fun _ _ => rfl, fun summary h => ?_⟩
    rw [reported_eq_ok_iff, herror] at h
    cases h
  | replaced _ _ hresult _ hplace =>
    refine ⟨fun e h => ?_, fun _ _ => ⟨_, _, _, hplace, rfl⟩⟩
    rw [reported_eq_ok_iff.mpr hresult] at h
    cases h

/-- The whole table was written, but the output, a link to a file, is not replaced. -/
theorem tree_of_atomic_unreplaced :
    let fault : StreamFault := ⟨.permissionDenied, "Permission denied (os error 13)"⟩
    let system : System := { refuses? := fun r => if r = .replaceOutput then some fault else none }
    let t : FileTree := ⟨[(["table"], .file (Utf8.encode "49200, /* (0xC030) */\n") 0o644),
      (["old"], .file (Utf8.encode "kept") 0o600), (["out"], .link "old")], [], 0o022⟩
    let r := runOn system .standard true "table" "out" t
    r.result = .error (.file "out" fault) ∧ r.steps.length = 1 ∧ r.tree = t := by
  intro fault system t r
  have h : r.result = .error (.file "out" fault) := by decide +kernel
  exact ⟨h, by decide +kernel, (tree_of_atomic system .standard "table" "out" t).1 _ h⟩

end FilePass

end GlyphRebase
