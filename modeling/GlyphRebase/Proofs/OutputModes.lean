import GlyphRebase.Proofs.FaithfulPass
import GlyphRebase.Proofs.NamedLinks

/-!
# Direct and atomic passes come to the same

A direct pass writes to where its output path points, an atomic pass to what the path names: if that
is a link, the one keeps the link, the other replaces it. Both read the same input, unless it is
their output. Then, if both succeed, they have done the same, with the same summary, and the output
path leads to the same file afterwards (`FilePass.same_in_both_ways`). Apart from the place that
each has written to, it leaves all as it was (`FileTree.Agree`).
-/

namespace GlyphRebase

namespace FileTree

/-- Two trees that agree but for one place. -/
structure Agree (l : Location) (t t' : FileTree) : Prop where
  elsewhere : ∀ l', l' ≠ l → t'.node? l' = t.node? l'
  home : t'.home = t.home
  umask : t'.umask = t.umask

theorem agree_put (t : FileTree) (l : Location) (n : Node) : Agree l t (t.put l n) :=
  ⟨fun _ h => node?_put_of_ne h, put_home, put_umask⟩

/-- Where a file can be made for a path, the permission bits that the path leads to are those of the
file that is there. -/
theorem mode?_of_create {t : FileTree} {path : String} {dir : Location} {name : String} {mode : Nat}
    (h : t.place .create path = .ok (.named dir name false))
    (hwas : (∃ bytes, t.node? (dir ++ [name]) = some (.file bytes mode)) ∨
      t.node? (dir ++ [name]) = none ∧ mode = t.newMode) :
    (t.mode? path).getD t.newMode = mode := by
  rcases hwas with ⟨bytes, hfile⟩ | ⟨habsent, rfl⟩
  · rw [(leadsToFile_of_place h hfile).mode?, Option.getD_some]
  · have hnone : (t.look path).toOption = none := by
      cases hlook : t.look path with
      | error fault => rfl
      | ok l =>
        obtain ⟨n, hn⟩ := exists_of_look hlook
        have hl := (look_eq_ok_iff_of_create h (passage_of_absent habsent) hn).mp hlook
        rw [hl, habsent] at hn
        cases hn
    simp only [mode?, hnone, Option.bind_none, Option.getD_none]

end FileTree

namespace FilePass

variable {direct atomic : System} {rules : Rules} {input output : String} {t : FileTree}
  {s s' : Summary}

/-- Passes over the same file that succeed do the same, on whatever systems. -/
theorem passOver_same {l : Location} (h : (passOver direct rules t l).result = .ok s)
    (h' : (passOver atomic rules t l).result = .ok s') :
    s = s' ∧ (passOver direct rules t l).events = (passOver atomic rules t l).events ∧
      (passOver direct rules t l).sink.contents = (passOver atomic rules t l).sink.contents := by
  obtain ⟨bytes, mode, hn, hsource⟩ := sourceAt_of_passOver h
  obtain ⟨bytes', mode', hn', hsource'⟩ := sourceAt_of_passOver h'
  rw [hn] at hn'
  cases hn'
  obtain ⟨hrules, texts, htexts, rfl, hfinishes⟩ := Pass.run_eq_ok h
  obtain ⟨-, texts', htexts', rfl, hfinishes'⟩ := Pass.run_eq_ok h'
  obtain rfl : texts = texts' := texts_unique (hsource ▸ htexts) (hsource' ▸ htexts')
  have hseen := Pass.run_of_finishes hrules htexts hfinishes
  have hseen' := Pass.run_of_finishes hrules htexts' hfinishes'
  refine ⟨rfl, (congrArg Seen.events hseen).trans (congrArg Seen.events hseen').symm, ?_⟩
  exact hfinishes.contents.trans hfinishes'.contents.symm

/-- A direct pass that succeeds over another file than its output has written to where the output
path points. -/
theorem direct_eq_ok (hapart : t.look input ≠ t.look output)
    (h : (runOn direct rules false input output t).result = .ok s) :
    ∃ source dir name mode, t.look input = .ok source ∧
      t.place .create output = .ok (.named dir name false) ∧
      ((∃ bytes, t.node? (dir ++ [name]) = some (.file bytes mode)) ∨
        t.node? (dir ++ [name]) = none ∧ mode = t.newMode) ∧
      (passOver direct rules t source).result = .ok s ∧
      runOn direct rules false input output t =
        reported input output (passOver direct rules t source) (t.put (dir ++ [name])
          (.file (passOver direct rules t source).sink.contents mode)) := by
  rw [runOn, if_neg (by decide)] at h ⊢
  have hrun := runDirect_run direct rules input output t
  generalize runDirect direct rules input output t = r at h hrun
  cases hrun with
  | unopened | uncreated => cases h
  | ran hopen _ hplace hwas =>
    have hlook := (System.attempt_eq_ok_iff.mp hopen).2
    have hstop := passage_of_target (hwas.imp_right And.left)
    rw [hlook] at hapart
    rw [reported_eq_ok_iff] at h
    simp only [passOver_put_of_apart hapart.symm hlook hplace hstop] at h ⊢
    exact ⟨_, _, _, _, hlook, hplace, hwas, h, rfl⟩

/-- An atomic pass that succeeds has replaced what the output path names. -/
theorem atomic_eq_ok (h : (runOn atomic rules true input output t).result = .ok s) :
    ∃ source dir name, t.look input = .ok source ∧
      t.place .replace output = .ok (.named dir name false) ∧
      (passOver atomic rules t source).result = .ok s ∧
      runOn atomic rules true input output t =
        reported input output (passOver atomic rules t source) (t.put (dir ++ [name])
          (.file (passOver atomic rules t source).sink.contents (outputMode t output))) := by
  rw [runOn, if_pos rfl] at h ⊢
  have hrun := runAtomic_run atomic rules input output t
  generalize runAtomic atomic rules input output t = r at h hrun
  cases hrun with
  | unopened | unstaged | kept => cases h
  | stopped _ _ herror =>
    rw [reported_eq_ok_iff, herror] at h
    cases h
  | replaced hopen _ _ _ hplace =>
    have hlook := (System.attempt_eq_ok_iff.mp hopen).2
    exact ⟨_, _, _, hlook, hplace, reported_eq_ok_iff.mp h, rfl⟩

/-- **Both ways come to the same.** A direct and an atomic pass from the same tree, on whatever
systems, whose input and output paths do not lead to the same, and that both succeed, end with the
same summary and have done the same on their way. Afterwards the output path leads to a file with
the same bytes, and with the permission bits of the file that it led to before, or those of a new
file if there was none. A direct pass has changed nothing but the place that the output path points
to, an atomic pass nothing but the place that it names; so no temporary file is left. -/
theorem same_in_both_ways (hapart : t.look input ≠ t.look output)
    (hdirect : (runOn direct rules false input output t).result = .ok s)
    (hatomic : (runOn atomic rules true input output t).result = .ok s') :
    let d := runOn direct rules false input output t
    let a := runOn atomic rules true input output t
    let mode := (t.mode? output).getD (0o666 &&& (0o777 ^^^ t.umask))
    (s = s' ∧ d.events = a.events) ∧
      (∃ bytes, d.tree.LeadsToFile output bytes mode ∧ a.tree.LeadsToFile output bytes mode) ∧
      (∃ p, t.place .create output = .ok p ∧ FileTree.Agree p.location t d.tree) ∧
      ∃ p, t.place .replace output = .ok p ∧ FileTree.Agree p.location t a.tree := by
  intro d a mode
  obtain ⟨source, dir, name, mode', hlook, hcreate, hwas, hd, hreport⟩ :=
    direct_eq_ok hapart hdirect
  obtain ⟨source', dir', name', hlook', hreplace, ha, hreport'⟩ := atomic_eq_ok hatomic
  rw [hlook] at hlook'
  cases hlook'
  change d = _ at hreport
  change a = _ at hreport'
  obtain ⟨hsummary, hevents, htaken⟩ := passOver_same hd ha
  have hmode : mode = mode' := FileTree.mode?_of_create hcreate hwas
  have hstop := passage_of_target (hwas.imp_right And.left)
  obtain ⟨p, hp⟩ := (FileTree.goesThroughItsEnd_eq_false_iff hreplace).mp
    (FileTree.goesThroughItsEnd_of_create hcreate hstop hreplace)
  refine ⟨⟨hsummary, ?_⟩, ⟨(passOver direct rules t source).sink.contents, ?_, ?_⟩,
    ⟨_, hcreate, ?_⟩, ⟨_, hreplace, ?_⟩⟩
  · rw [hreport, hreport']
    exact hevents
  · rw [hreport, hmode]
    exact FileTree.leadsToFile_put_of_create hcreate hstop
  · rw [hreport', htaken]
    exact FileTree.leadsToFile_put_of_erase hreplace hp
  · rw [hreport]
    exact FileTree.agree_put ..
  · rw [hreport']
    exact FileTree.agree_put ..

/-- The output is a link to a file that is not there yet; the direct pass has little room, and the
system of the other is sound. -/
theorem same_in_both_ways_over_dangling :
    let t : FileTree := ⟨[(["table"], .file (Utf8.encode "49200, /* (0xC030) */\n") 0o600),
      (["old"], .directory 0o755), (["out"], .link "old/../old/new")], [], 0o027⟩
    let full : StreamFault := ⟨.storageFull, "No space left on device (os error 28)"⟩
    let narrow : System := { room? := some (30, full) }
    let d := runOn narrow .standard false "table" "out" t
    let a := runOn .sound .standard true "table" "out" t
    let summary : Summary := ⟨1, 1, ⟨128, "0xC030", false, "0x0000"⟩⟩
    t.look "table" ≠ t.look "out" ∧ d.result = .ok summary ∧ a.result = .ok summary ∧
      d.events = a.events ∧
      (∃ bytes, d.tree.LeadsToFile "out" bytes 0o640 ∧ a.tree.LeadsToFile "out" bytes 0o640) ∧
      d.tree.node? ["out"] = some (.link "old/../old/new") ∧
      a.tree.node? ["old", "new"] = none := by
  intro t full narrow d a summary
  have hapart : t.look "table" ≠ t.look "out" := by decide +kernel
  have hdirect : d.result = .ok summary := by decide +kernel
  have hatomic : a.result = .ok summary := by decide +kernel
  obtain ⟨⟨-, hevents⟩, hfiles, ⟨p, hp, hagree⟩, q, hq, hagree'⟩ :=
    same_in_both_ways hapart hdirect hatomic
  have hmode : (t.mode? "out").getD (0o666 &&& (0o777 ^^^ t.umask)) = 0o640 := by decide +kernel
  rw [hmode] at hfiles
  have hpoints : t.place .create "out" = .ok (.named ["old"] "new" false) := by decide +kernel
  have hnames : t.place .replace "out" = .ok (.named [] "out" false) := by decide +kernel
  rw [hpoints] at hp
  rw [hnames] at hq
  cases hp
  cases hq
  exact ⟨hapart, hdirect, hatomic, hevents, hfiles, hagree.elsewhere _ (by decide),
    hagree'.elsewhere _ (by decide)⟩

end FilePass

end GlyphRebase
