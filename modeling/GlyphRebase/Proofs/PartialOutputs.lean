import GlyphRebase.Proofs.FailingPass
import GlyphRebase.Proofs.OutputModes

/-!
# What a failed direct pass leaves

A direct pass that fails before its output is made has changed nothing. One that fails later has
written the entries of the lines in front of the one it failed at (`Reference.Fails`), and these are
all that its output holds: whatever the output held before is gone, and everything else is as it was
(`FilePass.failed_direct_leaves_front`).
-/

namespace GlyphRebase

/-! ### Where a pass fails -/

namespace Reference

/-- How a pass over lines fails, by the texts whose entries it has written by then. -/
inductive Fails (rules : Rules) (items : List (Except StreamFault String)) :
    List String → PassError → Prop where
  /-- Before the first line, for the rules cannot be applied. -/
  | invalidRules {reason : String} (hrules : rules.fault? = some reason) :
      Fails rules items [] (.invalidRules reason)
  /-- At a line. -/
  | atLine {texts : List String} {e : PassError} (hrules : rules.fault? = none)
      (hline : FailsAt rules .initial items texts e) : Fails rules items texts e

variable {rules : Rules} {before : Summary} {items : List (Except StreamFault String)}
  {texts : List String} {e : PassError}

/-- If the first line is at fault, no entry is written. -/
theorem FailsAt.texts_eq_nil {fault : StreamFault} {rest : List (Except StreamFault String)}
    (h : FailsAt rules before items texts e) (hitems : items = .error fault :: rest) :
    texts = [] := by
  cases texts with
  | nil => rfl
  | cons text texts =>
    cases h with
    | unread hitems' => cases hitems.symm.trans hitems'
    | negative hitems' => cases hitems.symm.trans hitems'

theorem Fails.texts_eq_nil (h : Fails rules items texts e)
    (hfirst : rules.fault? ≠ none ∨ ∃ fault rest, items = .error fault :: rest) : texts = [] := by
  cases h with
  | invalidRules => rfl
  | atLine hrules hline =>
    rcases hfirst with hfault | ⟨fault, rest, hitems⟩
    · exact absurd hrules hfault
    · exact hline.texts_eq_nil hitems

/-- **A pass that fails** into a file that takes everything leaves in it the entries of the lines in
front of the one it failed at, and nothing if its rules cannot be applied. -/
theorem Ends.fails {w w' : BufferedFile} (hw : w.Faultless) (h : Ends rules w items e w') :
    ∃ texts, Fails rules items texts e ∧ w'.contents = w.taken ++ output rules .initial texts := by
  cases h with
  | invalidRules hrules =>
    refine ⟨[], .invalidRules hrules, ?_⟩
    rw [hw.contents]
    exact (List.append_nil _).symm
  | inLines hrules hends =>
    cases hends with
    | atLine texts hline hwrites =>
      refine ⟨texts, .atLine hrules hline, ?_⟩
      rw [(hw.of_writes hwrites).contents, output_eq_flatMap]
      exact Output.answers_ofBufferedFile.taken_of_writes hwrites
    | @atEntry texts line _ _ _ _ _ _ hwrites hfault =>
      obtain ⟨_, hwrite⟩ := (hw.of_writes hwrites).writeAll
        (stateAfter rules Summary.initial.state (texts ++ [line])).entry.bytes
      cases hwrite.symm.trans hfault
    | atFlush _ _ _ hwrites hfault =>
      obtain ⟨_, hflush⟩ := (hw.of_writes hwrites).flush_eq_ok
      cases hflush.symm.trans hfault

end Reference

/-! ### What is left in the files -/

/-- The second tree is the first but for the place that a path points to. A file is there with the
given bytes, and nothing that it held before. If it was there before, it keeps its permission
bits. -/
def FileTree.Overwritten (t t' : FileTree) (path : String) (bytes : List UInt8) : Prop :=
  ∃ dir name mode, t.place .create path = .ok (.named dir name false) ∧
    ((∃ held, t.node? (dir ++ [name]) = some (.file held mode)) ∨
      t.node? (dir ++ [name]) = none ∧ mode = t.newMode) ∧
    t'.LeadsToFile path bytes mode ∧ Agree (dir ++ [name]) t t'

/-- The lines that are read of a file with the given bytes. One that cannot be read to its end gives
the lines that are complete by then, and then the fault. -/
def System.readLines (s : System) (bytes : List UInt8) : List (Except StreamFault String) :=
  match s.breaksOff? with
  | none => (linesOf bytes).map lineText
  | some (n, fault) => (completeLines (bytes.take n)).map lineText ++ [.error fault]

theorem System.lines_sourceOf (s : System) (bytes : List UInt8) :
    (s.sourceOf bytes).lines = s.readLines bytes := by
  rw [sourceOf, readLines]
  cases s.breaksOff? with
  | none => exact Source.lines_of_delivers (Source.delivers_ofBytes bytes)
  | some place => exact Source.lines_of_failure ..

namespace FilePass

open Reference (Fails)

variable {system : System} {rules : Rules} {input output : String} {t : FileTree} {e : PassError}

/-- The lines that are read of what stands at a place: of a directory, nothing but a fault. -/
def linesAt (system : System) (t : FileTree) (l : Location) : List (Except StreamFault String) :=
  match t.node? l with
  | some (.file bytes _) => system.readLines bytes
  | _ => [.error FileFault.isDirectory.toStreamFault]

theorem lines_sourceAt (system : System) (t : FileTree) (l : Location) :
    (sourceAt system t l).lines = linesAt system t l := by
  have hnone := Source.lines_of_failure [] FileFault.isDirectory.toStreamFault
  rw [completeLines_of_none rfl, List.map_nil, List.nil_append] at hnone
  rw [sourceAt, linesAt]
  rcases t.node? l with _ | ⟨bytes, mode⟩ | _ | _
  · exact hnone
  · exact system.lines_sourceOf bytes
  · exact hnone
  · exact hnone

/-- A pass over files fails just if the pass that it came out as does. -/
theorem reported_eq_error_iff {r : Report BufferedFile} :
    (reported input output r t).result = .error e ↔
      ∃ e', r.result = .error e' ∧ e = e'.inFiles input output := by
  rw [reported]
  cases r.result <;> simp [Except.mapError, eq_comm]

/-- **A failed direct pass leaves exactly the entries before the failure**, if what the system
writes is not refused and the paths do not lead to the same file. Either the input was not opened or
the output not made, and no file is changed. Or the output holds the entries of the lines in front
of the one that the pass failed at, and every other file is as it was; and the output is empty if
the rules cannot be applied or already the first line cannot be read. -/
theorem failed_direct_leaves_front (hroom : system.room? = none)
    (hflush : system.flushFault? = none)
    (hapart : ∀ l, t.look input = .ok l → t.look output ≠ .ok l)
    (h : (runOn system rules false input output t).result = .error e) :
    let r := runOn system rules false input output t
    (r.tree = t ∧
      ((∃ fault, system.attempt .openInput (t.look input) = .error fault ∧
          e = .file input fault) ∨
        ∃ fault, system.attempt .createOutput (t.create output) = .error fault ∧
          e = .file output fault)) ∨
      ∃ source texts e', t.look input = .ok source ∧
        Fails rules (linesAt system t source) texts e' ∧ e = e'.inFiles input output ∧
        t.Overwritten r.tree output (Reference.output rules .initial texts) ∧
        ((rules.fault? ≠ none ∨ ∃ fault rest, linesAt system t source = .error fault :: rest) →
          r.tree.read output = .ok []) := by
  rw [runOn, if_neg (by decide)] at h ⊢
  have hrun := runDirect_run system rules input output t
  generalize runDirect system rules input output t = r at h hrun
  cases hrun with
  | unopened hopen =>
    cases h
    exact .inl ⟨rfl, .inl ⟨_, hopen, rfl⟩⟩
  | uncreated _ hcreate =>
    cases h
    exact .inl ⟨rfl, .inr ⟨_, hcreate, rfl⟩⟩
  | @ran source dir name mode hopen _ hplace hwas =>
    have hlook := (System.attempt_eq_ok_iff.mp hopen).2
    have hstop := passage_of_target (hwas.imp_right And.left)
    simp only [passOver_put_of_apart (hapart source hlook) hlook hplace hstop] at h ⊢
    obtain ⟨e', he', rfl⟩ := reported_eq_error_iff.mp h
    obtain ⟨texts, hfails, hcontents⟩ :=
      Reference.Ends.fails ⟨hroom, hflush⟩ (Pass.run_eq_error_iff.mp ⟨he', rfl⟩)
    rw [lines_sourceAt] at hfails
    rw [system.taken_target, List.nil_append] at hcontents
    have hleft : (t.put (dir ++ [name]) (.file (Reference.output rules .initial texts)
        mode)).LeadsToFile output (Reference.output rules .initial texts) mode :=
      FileTree.leadsToFile_put_of_create hplace hstop
    rw [passOver, hcontents]
    refine .inr ⟨source, texts, e', hlook, hfails, rfl, ⟨dir, name, mode, hplace, hwas, hleft,
      FileTree.agree_put ..⟩, fun hfirst => ?_⟩
    rw [hfails.texts_eq_nil hfirst] at hleft ⊢
    exact hleft.read

/-- The second line is rejected, and the output is a link to a file of its owner alone. -/
theorem failed_direct_leaves_front_at_second_line :
    let t : FileTree := ⟨[
      (["table"], .file (Utf8.encode "49200, /* (0xC030) */\n7, /* (0x7) */\n") 0o644),
      (["old"], .file (Utf8.encode "what was there before, and more of it") 0o600),
      (["out"], .link "old")], [], 0o022⟩
    let rules : Rules := ⟨512, 0xBFB0, 0x10000, .reject⟩
    let r := runOn .sound rules false "table" "out" t
    let written := Utf8.encode "  128,\t/* 0xC030 */\n"
    (∀ l, t.look "table" = .ok l → t.look "out" ≠ .ok l) ∧
      r.result = .error (.negativeIndex 2 (-49065)) ∧
      (∃ texts, Fails rules (linesAt .sound t ["table"]) texts (.negativeIndex 2 (-49065)) ∧
        Reference.output rules .initial texts = written) ∧
      r.tree.LeadsToFile "out" written 0o600 ∧ r.tree.node? ["out"] = some (.link "old") := by
  intro t rules r written
  have htable : t.look "table" = .ok ["table"] := by decide +kernel
  have hout : t.look "out" = .ok ["old"] := by decide +kernel
  have hapart : ∀ l, t.look "table" = .ok l → t.look "out" ≠ .ok l := by
    intro l hl hl'
    rw [htable] at hl
    rw [hout, ← Except.ok.inj hl] at hl'
    exact absurd (Except.ok.inj hl') (by decide)
  have hresult : r.result = .error (.negativeIndex 2 (-49065)) := by decide +kernel
  obtain ⟨hsame, -⟩ | ⟨source, texts, e', hlook, hfails, he, hleft, -⟩ :=
    failed_direct_leaves_front (by rfl) (by rfl) hapart hresult
  · exact absurd hsame (by decide +kernel)
  · obtain rfl : ["table"] = source := Except.ok.inj (htable.symm.trans hlook)
    cases e' <;> cases he
    obtain ⟨dir, name, mode, hplace, hwas, hfile, hagree⟩ := hleft
    have hpoints : t.place .create "out" = .ok (.named [] "old" false) := by decide +kernel
    cases hpoints.symm.trans hplace
    have hheld : t.node? ["old"] =
        some (.file (Utf8.encode "what was there before, and more of it") 0o600) := by
      decide +kernel
    obtain rfl : 0o600 = mode := by
      rcases hwas with ⟨held, hold⟩ | ⟨habsent, -⟩
      · cases hheld.symm.trans hold
        rfl
      · cases hheld.symm.trans habsent
    have hread : r.tree.read "out" = .ok written := by decide +kernel
    have hbytes := Except.ok.inj (hfile.read.symm.trans hread)
    exact ⟨hapart, hresult, ⟨texts, hfails, hbytes⟩, hbytes ▸ hfile,
      hagree.elsewhere _ (by decide)⟩

end FilePass

end GlyphRebase
