import GlyphRebase.Proofs.PartialOutputs

/-!
# What a pass fails at first

Much can be wrong with a pass from file to file at once: its input, its output, its rules, several
of its lines. Only the first thing counts that the pass comes to. It opens the input, then makes the
output or a temporary file for it, looks at the rules, goes through the lines one by one, and last
replaces the output (`FilePass.FirstFailure`). The output lies behind a buffer, so a line in front
of the one at which the output is found full may be what fails first.

`FilePass.errors_are_attributed`: a pass from file to file reports just what failed first. A fault
of the input is reported with the path of the input, and a fault of the output with the path of the
output.
-/

namespace GlyphRebase

/-- A fault with which a pass into a buffered file ends is one of the file: it is full, or cannot be
flushed. -/
theorem Reference.Ends.write_fault {rules : Rules} {w w' : BufferedFile}
    {items : List (Except StreamFault String)} {fault : StreamFault} (hfits : w.file.HasRoom 0)
    (h : Ends rules w items (.write fault) w') :
    (∃ limit, w.file.limit? = some (limit, fault)) ∨ w.file.flushFault? = some fault := by
  cases h with
  | inLines _ hends =>
    cases hends with
    | atLine _ hline => cases hline
    | atEntry _ _ _ hwrites hfault =>
      have hsame := BufferedFile.sameFile_of_writes hfits hwrites
      obtain ⟨-, hlimit⟩ := (BufferedFile.writeAll_eq_error_iff hsame.room).mp ⟨_, hfault⟩
      exact .inl (hsame.limit ▸ hlimit)
    | atFlush _ _ _ hwrites hfault =>
      have hsame := BufferedFile.sameFile_of_writes hfits hwrites
      rcases (BufferedFile.flush_eq_error_iff hsame.room).mp ⟨_, hfault⟩ with
        ⟨-, hlimit⟩ | ⟨-, hflush⟩
      · exact .inl (hsame.limit ▸ hlimit)
      · exact .inr (hsame.flushFault ▸ hflush)

namespace FilePass

open Reference (Ends)

/-- What a pass from file to file can fail at. -/
inductive Failure where
  /-- The input is not opened. -/
  | opening (fault : StreamFault)
  /-- The output is not created or emptied, or no temporary file is made for it. -/
  | making (fault : StreamFault)
  /-- The pass itself ends with an error. -/
  | inPass (e : PassError)
  /-- The temporary file does not take the place of the output. -/
  | replacing (fault : StreamFault)

/-- Makes the file that a pass writes to: in a direct pass the output itself, in an atomic pass a
temporary file. -/
def makeTarget (system : System) (atomic : Bool) (output : String) (t : FileTree) :
    Except StreamFault (Location × FileTree) :=
  if atomic then
    match stageOutput system output t with
    | (.ok staged, made) => .ok (staged, made)
    | (.error fault, _) => .error fault
  else system.attempt .createOutput (t.create output)

/-- The input is opened, and the file to write to is made. -/
structure Begins (system : System) (atomic : Bool) (input output : String) (t : FileTree)
    (source target : Location) (made : FileTree) : Prop where
  opened : system.attempt .openInput (t.look input) = .ok source
  made : makeTarget system atomic output t = .ok (target, made)

/-- What a pass from file to file fails at, when everything that comes before has gone well. -/
inductive FirstFailure (system : System) (rules : Rules) (atomic : Bool) (input output : String)
    (t : FileTree) : Failure → Prop where
  /-- The input is opened first, whatever may be wrong with the rest. -/
  | opening {fault : StreamFault}
      (hopen : system.attempt .openInput (t.look input) = .error fault) :
      FirstFailure system rules atomic input output t (.opening fault)
  /-- Then the output is made, whatever the rules and the lines are. -/
  | making {source : Location} {fault : StreamFault}
      (hopen : system.attempt .openInput (t.look input) = .ok source)
      (hmake : makeTarget system atomic output t = .error fault) :
      FirstFailure system rules atomic input output t (.making fault)
  /-- Then come the rules and the lines. -/
  | inPass {source target : Location} {made : FileTree} {e : PassError} {left : BufferedFile}
      (hbegins : Begins system atomic input output t source target made)
      (hends : Ends rules system.target (linesAt system made source) e left) :
      FirstFailure system rules atomic input output t (.inPass e)
  /-- Only an atomic pass over lines with which nothing is wrong replaces its output. -/
  | replacing {source target : Location} {made : FileTree} {texts : List String}
      {fault : StreamFault} (hbegins : Begins system atomic input output t source target made)
      (hpasses : ∀ e left, ¬Ends rules system.target (linesAt system made source) e left)
      (htexts : linesAt system made source = texts.map .ok) (hatomic : atomic = true)
      (hreplace : system.attempt .replaceOutput
        ((made.write target (Reference.output rules .initial texts)).rename target output) =
          .error fault) :
      FirstFailure system rules atomic input output t (.replacing fault)

section

variable {system : System} {rules : Rules} {atomic : Bool} {input output : String}
  {t made : FileTree} {source target : Location} {fault : StreamFault} {e : PassError} {s : Summary}

theorem runOn_of_unopened (hopen : system.attempt .openInput (t.look input) = .error fault) :
    (runOn system rules atomic input output t).result = .error (.file input fault) := by
  cases atomic <;> simp [runOn, runDirect, runAtomic, hopen, refused]

theorem runOn_of_unmade (hopen : system.attempt .openInput (t.look input) = .ok source)
    (hmake : makeTarget system atomic output t = .error fault) :
    (runOn system rules atomic input output t).result = .error (.file output fault) := by
  cases atomic with
  | false =>
    rw [makeTarget, if_neg (by decide)] at hmake
    simp [runOn, runDirect, hopen, hmake, refused]
  | true =>
    rw [makeTarget, if_pos rfl] at hmake
    rcases hstage : stageOutput system output t with ⟨fault' | staged, made⟩ <;>
      rw [hstage] at hmake <;> cases hmake
    simp [runOn, runAtomic, hopen, hstage, refused]

/-- In a direct pass the output is made. -/
theorem create_of_makeTarget (h : makeTarget system false output t = .ok (target, made)) :
    system.attempt .createOutput (t.create output) = .ok (target, made) := h

/-- In an atomic pass a temporary file is made. -/
theorem stageOutput_of_makeTarget (h : makeTarget system true output t = .ok (target, made)) :
    stageOutput system output t = (.ok target, made) := by
  rw [makeTarget, if_pos rfl] at h
  rcases hstage : stageOutput system output t with ⟨fault | staged, made'⟩ <;>
    rw [hstage] at h <;> cases h
  rfl

section

variable (hbegins : Begins system atomic input output t source target made)
include hbegins

theorem runOn_of_pass_error
    (hresult : (Pass.run rules (sourceAt system made source) system.target).result = .error e) :
    (runOn system rules atomic input output t).result = .error (e.inFiles input output) := by
  obtain ⟨hopen, hmake⟩ := hbegins
  cases atomic with
  | false =>
    have hcreate := create_of_makeTarget hmake
    simp [runOn, runDirect, hopen, hcreate, reported, hresult, Except.mapError]
  | true =>
    have hstage := stageOutput_of_makeTarget hmake
    simp [runOn, runAtomic, hopen, hstage, reported, hresult, Except.mapError]

/-- A pass that came to its end succeeds, unless it has an output to replace and cannot. -/
theorem runOn_of_pass_ok
    (hresult : (Pass.run rules (sourceAt system made source) system.target).result = .ok s) :
    let bytes := (Pass.run rules (sourceAt system made source) system.target).sink.contents
    let replaced := system.attempt .replaceOutput ((made.write target bytes).rename target output)
    (∀ fault, atomic = true → replaced = .error fault →
      (runOn system rules atomic input output t).result = .error (.file output fault)) ∧
    ((∀ fault, atomic = true → replaced ≠ .error fault) →
      (runOn system rules atomic input output t).result = .ok s) := by
  intro bytes replaced
  obtain ⟨hopen, hmake⟩ := hbegins
  cases atomic with
  | false =>
    have hcreate := create_of_makeTarget hmake
    simp [runOn, runDirect, hopen, hcreate, reported, hresult, Except.mapError]
  | true =>
    have hstage := stageOutput_of_makeTarget hmake
    have hreport : runOn system rules true input output t =
        replaceOutput system input output target
          (Pass.run rules (sourceAt system made source) system.target)
          (made.write target bytes) := by
      simp [runOn, runAtomic, hopen, hstage, hresult, bytes]
    rw [hreport, replaceOutput]
    rcases hreplaced : replaced with fault | t'
    · simp [hreplaced, replaced]
    · simp [hreplaced, replaced, reported, hresult, Except.mapError]

end

/-! ### What comes first -/

/-- The error that a failure is reported as. -/
def Failure.error (input output : String) : Failure → PassError
  | opening fault => .file input fault
  | making fault | replacing fault => .file output fault
  | inPass e => e.inFiles input output

theorem ends_iff : (∃ left, Ends rules system.target (linesAt system made source) e left) ↔
    (Pass.run rules (sourceAt system made source) system.target).result = .error e := by
  rw [← lines_sourceAt]
  constructor
  · rintro ⟨left, hends⟩
    exact (Pass.run_eq_error_iff.mpr hends).1
  · intro h
    exact ⟨_, Pass.run_eq_error_iff.mp ⟨h, rfl⟩⟩

/-- A pass that comes to its end has come to nothing that is wrong, and has left the entries of all
lines in the file. -/
theorem passes_of_ok
    (hresult : (Pass.run rules (sourceAt system made source) system.target).result = .ok s) :
    (∀ e left, ¬Ends rules system.target (linesAt system made source) e left) ∧
      ∃ texts, linesAt system made source = texts.map .ok ∧
        (Pass.run rules (sourceAt system made source) system.target).sink.contents =
          Reference.output rules .initial texts := by
  refine ⟨fun e left hends => ?_, ?_⟩
  · have herror := ends_iff.mp ⟨left, hends⟩
    rw [hresult] at herror
    cases herror
  · obtain ⟨-, texts, htexts, -, hfinishes⟩ := Pass.run_eq_ok hresult
    rw [lines_sourceAt] at htexts
    exact ⟨texts, htexts, hfinishes.contents⟩

theorem error_of_firstFailure {f : Failure}
    (h : FirstFailure system rules atomic input output t f) :
    (runOn system rules atomic input output t).result = .error (f.error input output) := by
  cases h with
  | opening hopen => exact runOn_of_unopened hopen
  | making hopen hmake => exact runOn_of_unmade hopen hmake
  | inPass hbegins hends => exact runOn_of_pass_error hbegins (ends_iff.mp ⟨_, hends⟩)
  | @replacing source target made texts fault hbegins hpasses htexts hatomic hreplace =>
    cases hresult : (Pass.run rules (sourceAt system made source) system.target).result with
    | error e =>
      obtain ⟨left, hends⟩ := ends_iff.mpr hresult
      exact absurd hends (hpasses e left)
    | ok s =>
      obtain ⟨-, texts', htexts', htaken⟩ := passes_of_ok hresult
      rw [texts_unique htexts htexts', ← htaken] at hreplace
      exact (runOn_of_pass_ok hbegins hresult).1 fault hatomic hreplace

theorem exists_firstFailure
    (h : (runOn system rules atomic input output t).result = .error e) :
    ∃ f, FirstFailure system rules atomic input output t f := by
  cases hopen : system.attempt .openInput (t.look input) with
  | error fault => exact ⟨_, .opening hopen⟩
  | ok source =>
    cases hmake : makeTarget system atomic output t with
    | error fault => exact ⟨_, .making hopen hmake⟩
    | ok file =>
      obtain ⟨target, made⟩ := file
      have hbegins : Begins system atomic input output t source target made := ⟨hopen, hmake⟩
      cases hresult : (Pass.run rules (sourceAt system made source) system.target).result with
      | error e =>
        obtain ⟨left, hends⟩ := ends_iff.mpr hresult
        exact ⟨_, .inPass hbegins hends⟩
      | ok s =>
        obtain ⟨hpasses, texts, htexts, htaken⟩ := passes_of_ok hresult
        obtain ⟨-, hok⟩ := runOn_of_pass_ok hbegins hresult
        by_contra hnone
        rw [hok fun fault hatomic hreplace => hnone ?_] at h
        · cases h
        · rw [htaken] at hreplace
          exact ⟨_, .replacing hbegins hpasses htexts hatomic hreplace⟩

/-- A pass from file to file fails with the error of what failed first. -/
theorem runOn_eq_error_iff :
    (runOn system rules atomic input output t).result = .error e ↔
      ∃ f, FirstFailure system rules atomic input output t f ∧ f.error input output = e := by
  constructor
  · intro h
    obtain ⟨f, hf⟩ := exists_firstFailure h
    have herror := error_of_firstFailure hf
    rw [h] at herror
    exact ⟨f, hf, (Except.error.inj herror).symm⟩
  · rintro ⟨f, hf, rfl⟩
    exact error_of_firstFailure hf

theorem Begins.unique {source' target' : Location} {made' : FileTree}
    (h : Begins system atomic input output t source target made)
    (h' : Begins system atomic input output t source' target' made') :
    source = source' ∧ target = target' ∧ made = made' := by
  cases h.opened.symm.trans h'.opened
  cases h.made.symm.trans h'.made
  exact ⟨rfl, rfl, rfl⟩

/-- There is only one thing that fails first. -/
theorem FirstFailure.unique {f f' : Failure}
    (h : FirstFailure system rules atomic input output t f)
    (h' : FirstFailure system rules atomic input output t f') : f = f' := by
  cases h with
  | opening hopen =>
    cases h' with
    | opening hopen' =>
      cases hopen.symm.trans hopen'
      rfl
    | making hopen' => cases hopen.symm.trans hopen'
    | inPass hbegins' | replacing hbegins' => cases hopen.symm.trans hbegins'.opened
  | making hopen hmake =>
    cases h' with
    | opening hopen' => cases hopen.symm.trans hopen'
    | making _ hmake' =>
      cases hmake.symm.trans hmake'
      rfl
    | inPass hbegins' | replacing hbegins' => cases hmake.symm.trans hbegins'.made
  | inPass hbegins hends =>
    cases h' with
    | opening hopen' => cases hbegins.opened.symm.trans hopen'
    | making _ hmake' => cases hbegins.made.symm.trans hmake'
    | inPass hbegins' hends' =>
      obtain ⟨rfl, -, rfl⟩ := hbegins.unique hbegins'
      cases (ends_iff.mp ⟨_, hends⟩).symm.trans (ends_iff.mp ⟨_, hends'⟩)
      rfl
    | replacing hbegins' hpasses' =>
      obtain ⟨rfl, -, rfl⟩ := hbegins.unique hbegins'
      exact absurd hends (hpasses' _ _)
  | replacing hbegins hpasses htexts _ hreplace =>
    cases h' with
    | opening hopen' => cases hbegins.opened.symm.trans hopen'
    | making _ hmake' => cases hbegins.made.symm.trans hmake'
    | inPass hbegins' hends' =>
      obtain ⟨rfl, -, rfl⟩ := hbegins.unique hbegins'
      exact absurd hends' (hpasses _ _)
    | replacing hbegins' _ htexts' _ hreplace' =>
      obtain ⟨rfl, rfl, rfl⟩ := hbegins.unique hbegins'
      obtain rfl := texts_unique htexts htexts'
      cases hreplace.symm.trans hreplace'
      rfl

/-- Only a fault of a file is reported otherwise than it comes from the pass. -/
theorem Failure.eq_inPass {f : Failure} (h : f.error input output = e) (hcause : e.cause? = none) :
    f = .inPass e := by
  subst h
  cases f with
  | opening | making | replacing => cases hcause
  | inPass e =>
    cases e with
    | read | write | file => cases hcause
    | negativeIndex | invalidRules => rfl

theorem Failure.error_ne (f : Failure) (input output : String) (fault : StreamFault) :
    f.error input output ≠ .read fault ∧ f.error input output ≠ .write fault := by
  cases f with
  | opening | making | replacing => exact ⟨nofun, nofun⟩
  | inPass e => cases e <;> exact ⟨nofun, nofun⟩

end

/-- **An error tells of the first failure, and of the side that failed.** A pass from file to file
reports a fault with the path of the input just if the first thing that fails is to open the input
or to read a line of it, and with the path of the output just if it is to make, to write or to
replace the output. The fault is the one that the failed operation met with, and is the cause of the
error; a fault of writing is what the system has against more bytes in the output, or against its
flush. No fault is reported without a path. A negative index, and rules that cannot be applied, are
reported as they come from the pass by itself. -/
theorem errors_are_attributed (system : System) (rules : Rules) (atomic : Bool)
    (input output : String) (t : FileTree) :
    let r := runOn system rules atomic input output t
    let First := FirstFailure system rules atomic input output t
    (∀ path fault, r.result = .error (.file path fault) ↔
      path = input ∧ (First (.opening fault) ∨ First (.inPass (.read fault))) ∨
      path = output ∧
        (First (.making fault) ∨ First (.inPass (.write fault)) ∨ First (.replacing fault))) ∧
    (∀ line index, r.result = .error (.negativeIndex line index) ↔
      First (.inPass (.negativeIndex line index))) ∧
    (∀ reason, r.result = .error (.invalidRules reason) ↔
      First (.inPass (.invalidRules reason))) ∧
    (∀ e, r.result = .error e → (∀ fault, e ≠ .read fault ∧ e ≠ .write fault) ∧
      ∀ fault, e.cause? = some fault ↔ ∃ path, e = .file path fault) ∧
    (∀ f f', First f → First f' → f = f') ∧
    (∀ fault, First (.inPass (.write fault)) →
      (∃ room, system.room? = some (room, fault)) ∨ system.flushFault? = some fault) ∧
    ∀ source target made, Begins system atomic input output t source target made → ∀ e,
      First (.inPass e) ↔
        (Pass.run rules (sourceAt system made source) system.target).result = .error e := by
  intro r First
  have hiff (e : PassError) : r.result = .error e ↔ ∃ f, First f ∧ f.error input output = e :=
    runOn_eq_error_iff
  have hpass (e : PassError) (hcause : e.cause? = none) (hkept : e.inFiles input output = e) :
      r.result = .error e ↔ First (.inPass e) := by
    rw [hiff]
    constructor
    · rintro ⟨f, hf, he⟩
      rwa [Failure.eq_inPass he hcause] at hf
    · intro hf
      exact ⟨_, hf, hkept⟩
  refine ⟨fun path fault => ?_, fun line index => hpass _ rfl rfl, fun reason => hpass _ rfl rfl,
    fun e he => ?_, fun _ _ => FirstFailure.unique, fun fault hf => ?_,
    fun source target made hbegins e => ?_⟩
  · constructor
    · intro h
      obtain ⟨f, hf, he⟩ := (hiff _).mp h
      cases f with
      | opening => cases he; exact .inl ⟨rfl, .inl hf⟩
      | making => cases he; exact .inr ⟨rfl, .inl hf⟩
      | replacing => cases he; exact .inr ⟨rfl, .inr (.inr hf)⟩
      | inPass e =>
        cases e with
        | read => cases he; exact .inl ⟨rfl, .inr hf⟩
        | write => cases he; exact .inr ⟨rfl, .inr (.inl hf)⟩
        | negativeIndex | invalidRules => cases he
        | file path fault =>
          cases hf with
          | inPass _ hends => exact absurd rfl (hends.ne_file path fault)
    · rintro (⟨rfl, hf | hf⟩ | ⟨rfl, hf | hf | hf⟩) <;> exact error_of_firstFailure hf
  · obtain ⟨f, -, rfl⟩ := (hiff e).mp he
    have hne := f.error_ne input output
    refine ⟨hne, fun fault => ?_⟩
    cases herror : f.error input output with
    | read fault => exact absurd herror (hne fault).1
    | write fault => exact absurd herror (hne fault).2
    | file path fault' => simp [PassError.cause?]
    | negativeIndex | invalidRules => simp [PassError.cause?]
  · cases hf with
    | inPass _ hends => exact hends.write_fault fun _ _ _ => Nat.zero_le _
  · constructor
    · rintro (_ | _ | ⟨hbegins', hends⟩)
      obtain ⟨rfl, -, rfl⟩ := hbegins.unique hbegins'
      exact ends_iff.mp ⟨_, hends⟩
    · intro h
      obtain ⟨left, hends⟩ := ends_iff.mpr h
      exact .inPass hbegins hends

/-- Several things are wrong with each of these passes: the input is missing, the output is a
directory or full, the rules cannot be applied, the second line is rejected, the third is no text.
The full output is noticed only when the buffer is passed on, so of two lines the second is rejected
before that, after the entry of the first was announced. -/
theorem errors_are_attributed_in_order :
    let first := Utf8.encode "49200, /* (0xC030) */\n"
    let table := first ++ Utf8.encode "7, /* (0x7) */\n" ++ [0xFF]
    let t : FileTree := ⟨[(["line"], .file first 0o644), (["table"], .file table 0o644),
      (["out"], .directory 0o755)], [], 0o022⟩
    let invalid : Rules := ⟨512, 0xBFB0, 0, .reject⟩
    let strict : Rules := ⟨512, 0xBFB0, 0x10000, .reject⟩
    let noText : StreamFault := ⟨.invalidData, "invalid utf-8 sequence of 1 bytes from index 0"⟩
    let full : StreamFault := ⟨.storageFull, "No space left on device (os error 28)"⟩
    let crammed : System := { room? := some (0, full) }
    (runOn .sound invalid false "none" "out" t).result =
        .error (.file "none" FileFault.noEntry.toStreamFault) ∧
      (runOn .sound invalid false "table" "out" t).result =
        .error (.file "out" FileFault.isDirectory.toStreamFault) ∧
      FirstFailure .sound invalid true "table" "out" t
        (.inPass (.invalidRules "wrap boundary must be positive, got 0")) ∧
      FirstFailure .sound strict true "table" "out" t (.inPass (.negativeIndex 2 (-49065))) ∧
      (FirstFailure .sound .standard true "table" "out" t (.opening noText) ∨
        FirstFailure .sound .standard true "table" "out" t (.inPass (.read noText))) ∧
      FirstFailure crammed strict false "table" "new" t (.inPass (.negativeIndex 2 (-49065))) ∧
      (runOn crammed strict false "table" "new" t).steps.map Step.count = [1] ∧
      FirstFailure crammed strict false "line" "new" t (.inPass (.write full)) ∧
      (runOn crammed strict false "line" "new" t).result = .error (.file "new" full) := by
  intro first table t invalid strict noText full crammed
  have hmissing : FirstFailure .sound invalid false "none" "out" t
      (.opening FileFault.noEntry.toStreamFault) := .opening (by decide +kernel)
  have hdirectory : FirstFailure .sound invalid false "table" "out" t
      (.making FileFault.isDirectory.toStreamFault) := by
    have hopen : System.sound.attempt .openInput (t.look "table") = .ok ["table"] := by
      decide +kernel
    exact .making hopen (by decide +kernel)
  have hbegins : Begins crammed false "line" "new" t ["line"] ["new"]
      (t.put ["new"] (.file [] 0o644)) := ⟨by decide +kernel, by decide +kernel⟩
  obtain ⟨hmissing_iff, -⟩ := errors_are_attributed .sound invalid false "none" "out" t
  obtain ⟨hdirectory_iff, -⟩ := errors_are_attributed .sound invalid false "table" "out" t
  obtain ⟨-, -, hinvalid_iff, -⟩ := errors_are_attributed .sound invalid true "table" "out" t
  obtain ⟨-, hnegative_iff, -⟩ := errors_are_attributed .sound strict true "table" "out" t
  obtain ⟨hunread_iff, -⟩ := errors_are_attributed .sound .standard true "table" "out" t
  obtain ⟨-, hbefore_iff, -⟩ := errors_are_attributed crammed strict false "table" "new" t
  obtain ⟨hfull_iff, -, -, -, -, -, hpass⟩ :=
    errors_are_attributed crammed strict false "line" "new" t
  have hfull : FirstFailure crammed strict false "line" "new" t (.inPass (.write full)) :=
    (hpass _ _ _ hbegins _).mpr (by decide +kernel)
  refine ⟨(hmissing_iff _ _).mpr (.inl ⟨rfl, .inl hmissing⟩),
    (hdirectory_iff _ _).mpr (.inr ⟨rfl, .inl hdirectory⟩), (hinvalid_iff _).mp (by decide +kernel),
    (hnegative_iff _ _).mp (by decide +kernel), ?_, (hbefore_iff _ _).mp (by decide +kernel),
    by decide +kernel, hfull, (hfull_iff _ _).mpr (.inr ⟨rfl, .inr (.inl hfull)⟩)⟩
  obtain ⟨-, hunread⟩ | ⟨hpath, -⟩ := (hunread_iff "table" noText).mp (by decide +kernel)
  · exact hunread
  · exact absurd hpath (by decide)

end FilePass

end GlyphRebase
