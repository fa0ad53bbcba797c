import GlyphRebase.Proofs.Buffering
import GlyphRebase.Proofs.FileRuns

/-!
# What a pass from file to file has remapped

A pass from file to file that succeeds should leave in its output what the pass over the bytes that
the input held writes, and end with the same summary. `FilePass.runOn_remaps_iff` says when it does.

An atomic pass reads its input before it touches the output, so it does even if both paths lead to
the same file. A direct pass empties the output first: over a file that held any bytes and is also
the output, it finds nothing to read, and ends well all the same. And an output path that goes
through the very link that an atomic pass replaces leads nowhere afterwards.
-/

namespace GlyphRebase

open Reference

/-- Nothing is written to the output before the pass. -/
theorem System.taken_target (s : System) : s.target.taken = [] := rfl

namespace FilePass

variable {system : System} {rules : Rules} {input output : String} {t : FileTree}
  {summary : Summary}

/-- What a path leads to is what the pass over a source writes, and the pass ends with the
summary. -/
def Remapped (rules : Rules) (source : Source) (t : FileTree) (output : String)
    (summary : Summary) : Prop :=
  t.read output = .ok (Pass.run rules source Sink.perfect).sink.taken.toList ∧
    (Pass.run rules source Sink.perfect).result = .ok summary

/-- What stands at a place is a file that can be read to its end, or cannot be read to its end. -/
theorem sourceAt_cases (system : System) (t : FileTree) (l : Location) :
    (∃ held fault, sourceAt system t l = ⟨held, [.failure fault]⟩) ∨
      ∃ bytes mode, t.node? l = some (.file bytes mode) ∧ sourceAt system t l = .ofBytes bytes := by
  unfold sourceAt
  split
  · next bytes mode hn =>
    unfold System.sourceOf
    split
    · exact .inl ⟨_, _, rfl⟩
    · exact .inr ⟨bytes, mode, hn, rfl⟩
  · exact .inl ⟨_, _, rfl⟩

/-- A pass over what stands at a place succeeds only over a file that can be read to its end. -/
theorem sourceAt_of_passOver {l : Location} (h : (passOver system rules t l).result = .ok summary) :
    ∃ bytes mode, t.node? l = some (.file bytes mode) ∧ sourceAt system t l = .ofBytes bytes := by
  obtain ⟨-, texts, htexts, -⟩ := Pass.run_eq_ok h
  rcases sourceAt_cases system t l with ⟨held, fault, hsource⟩ | hfile
  · rw [hsource, Source.lines_of_failure] at htexts
    have hmem : .error fault ∈ texts.map (Except.ok (ε := StreamFault)) := htexts ▸ by simp
    obtain ⟨text, -, htext⟩ := List.mem_map.mp hmem
    cases htext
  · exact hfile

/-- A pass over what stands at a place that succeeds comes to what the pass over the bytes of the
file there comes to, however they are delivered. -/
theorem passOver_eq_ok {l : Location} (h : (passOver system rules t l).result = .ok summary) :
    ∃ bytes mode, t.node? l = some (.file bytes mode) ∧
      ∀ source, source.Delivers bytes →
        (Pass.run rules source Sink.perfect).result = .ok summary ∧
        (Pass.run rules source Sink.perfect).sink.taken.toList =
          (passOver system rules t l).sink.contents := by
  obtain ⟨hrules, texts, htexts, rfl, hfinishes⟩ := Pass.run_eq_ok h
  have hcontents : (passOver system rules t l).sink.contents = output rules .initial texts := by
    have hleft := hfinishes.contents
    rwa [system.taken_target, List.nil_append] at hleft
  obtain ⟨bytes, mode, hn, hsource⟩ := sourceAt_of_passOver h
  refine ⟨bytes, mode, hn, fun source hsource' => ?_⟩
  rw [hsource, Source.lines_of_delivers (Source.delivers_ofBytes bytes),
    ← Source.lines_of_delivers hsource'] at htexts
  obtain ⟨hresult, hwritten⟩ :=
    Pass.run_of_lines hrules htexts hfinishes.accepted Sink.accepting_perfect
  exact ⟨hresult, hwritten.trans hcontents.symm⟩

/-- A pass that ends with the summary of no bytes has read none. -/
theorem eq_nil_of_same_summary {source : Source} {bytes : List UInt8} {sink sink' : Sink}
    (hnone : (Pass.run rules (.ofBytes []) sink).result = .ok summary)
    (hsource : source.Delivers bytes) (h : (Pass.run rules source sink').result = .ok summary) :
    bytes = [] := by
  obtain ⟨-, texts₀, htexts₀, rfl, -⟩ := Pass.run_eq_ok hnone
  obtain ⟨-, texts, htexts, hsummary, -⟩ := Pass.run_eq_ok h
  rw [Source.lines_of_delivers (Source.delivers_ofBytes []), linesOf_eq_nil_iff.mpr rfl,
    List.map_nil, List.nil_eq, List.map_eq_nil_iff] at htexts₀
  have hlength : 0 = texts.length := by
    rw [htexts₀] at hsummary
    exact congrArg Summary.lines hsummary
  rw [List.length_eq_zero_iff.mp hlength.symm, Source.lines_of_delivers hsource, List.map_nil,
    List.map_eq_nil_iff, linesOf_eq_nil_iff] at htexts
  exact htexts

/-- A pass over a file that was emptied comes to what the pass over the bytes it held comes to just
if it held none. -/
theorem passOver_emptied_iff {l : Location} {mode : Nat} {source : Source} {held : List UInt8}
    (hl : l ≠ [])
    (h : (passOver system rules (t.put l (.file [] mode)) l).result = .ok summary)
    (hsource : source.Delivers held) :
    (passOver system rules (t.put l (.file [] mode)) l).sink.contents =
          (Pass.run rules source Sink.perfect).sink.taken.toList ∧
        (Pass.run rules source Sink.perfect).result = .ok summary ↔
      held = [] := by
  obtain ⟨bytes, _, hfile, hpass⟩ := passOver_eq_ok h
  rw [FileTree.node?_put_self hl] at hfile
  cases hfile
  constructor
  · rintro ⟨-, hresult⟩
    exact eq_nil_of_same_summary (hpass _ (Source.delivers_ofBytes [])).1 hsource hresult
  · rintro rfl
    obtain ⟨hresult, htaken⟩ := hpass source hsource
    exact ⟨htaken.symm, hresult⟩

/-- A walk goes no further from where a file is, or can be made. -/
theorem passage_of_target {l : Location} {mode : Nat}
    (hwas : (∃ bytes, t.node? l = some (.file bytes mode)) ∨ t.node? l = none) :
    t.passage l = .stop := by
  rcases hwas with ⟨bytes, hfile⟩ | habsent
  · exact FileTree.passage_of_file hfile
  · exact FileTree.passage_of_absent habsent

/-- The input is the file that a direct pass empties just if both paths lead to the same. -/
theorem look_eq_iff_of_create {source dir : Location} {name : String}
    (hlook : t.look input = .ok source)
    (hplace : t.place .create output = .ok (.named dir name false))
    (hstop : t.passage (dir ++ [name]) = .stop) :
    t.look input = t.look output ↔ source = dir ++ [name] := by
  obtain ⟨n, hn⟩ := FileTree.exists_of_look hlook
  rw [hlook, ← FileTree.look_eq_ok_iff_of_create hplace hstop hn, eq_comm]

/-- What a direct pass writes to an output to which its input path does not lead makes no difference
to what it reads. -/
theorem passOver_put_of_apart {source dir : Location} {name : String} {n : Node}
    (hapart : t.look output ≠ .ok source) (hlook : t.look input = .ok source)
    (hplace : t.place .create output = .ok (.named dir name false))
    (hstop : t.passage (dir ++ [name]) = .stop) :
    passOver system rules (t.put (dir ++ [name]) n) source = passOver system rules t source := by
  apply passOver_put_of_ne
  intro hsame
  have hboth := (look_eq_iff_of_create hlook hplace hstop).mpr hsame
  exact hapart (hboth.symm.trans hlook)

/-- A direct pass that succeeds over a file other than its output has remapped it. Over a file that
is its output, it has read nothing. -/
theorem remaps_direct_iff {source dir : Location} {name : String} {mode : Nat}
    (hlook : t.look input = .ok source)
    (hplace : t.place .create output = .ok (.named dir name false))
    (hwas : (∃ bytes, t.node? (dir ++ [name]) = some (.file bytes mode)) ∨
      t.node? (dir ++ [name]) = none)
    (h : (passOver system rules (t.put (dir ++ [name]) (.file [] mode)) source).result =
      .ok summary) :
    let written :=
      (passOver system rules (t.put (dir ++ [name]) (.file [] mode)) source).sink.contents
    ∃ bytes, t.read input = .ok bytes ∧ ∀ source : Source, source.Delivers bytes →
      (Remapped rules source (t.put (dir ++ [name]) (.file written mode)) output summary ↔
        ¬(t.look input = t.look output ∧ bytes ≠ [])) := by
  intro written
  have hl : dir ++ [name] ≠ [] := by simp
  have hstop := passage_of_target hwas
  have hread : (t.put (dir ++ [name]) (.file written mode)).read output = .ok written :=
    (FileTree.leadsToFile_put_of_create hplace hstop).read
  have hsame := look_eq_iff_of_create hlook hplace hstop
  by_cases hs : source = dir ++ [name]
  · subst hs
    obtain ⟨held, hheld⟩ : ∃ held, t.node? (dir ++ [name]) = some (.file held mode) := by
      rcases hwas with hfile | habsent
      · exact hfile
      · exact absurd rfl (FileTree.ne_of_look hlook habsent)
    refine ⟨held, FileTree.read_eq_ok_iff.mpr ⟨_, mode, hlook, hheld⟩, fun source' hs' => ?_⟩
    rw [Remapped, hread, hsame, Except.ok.injEq, passOver_emptied_iff hl h hs']
    simp
  · obtain ⟨bytes, mode', hfile, hpass⟩ := passOver_eq_ok h
    rw [FileTree.node?_put_of_ne hs] at hfile
    refine ⟨bytes, FileTree.read_eq_ok_iff.mpr ⟨_, mode', hlook, hfile⟩, fun source' hs' => ?_⟩
    obtain ⟨hresult, htaken⟩ := hpass source' hs'
    rw [Remapped, hread, hsame, htaken]
    exact ⟨fun _ ⟨h, _⟩ => hs h, fun _ => ⟨rfl, hresult⟩⟩

/-- An atomic pass that succeeds has remapped its input, but what it wrote is not found at the end
of an output path that goes through the link it replaced. -/
theorem remaps_atomic_iff {source dir : Location} {name : String} {mode : Nat}
    (hlook : t.look input = .ok source)
    (hplace : t.place .replace output = .ok (.named dir name false))
    (h : (passOver system rules t source).result = .ok summary) :
    let written := (passOver system rules t source).sink.contents
    ∃ bytes, t.read input = .ok bytes ∧ ∀ source : Source, source.Delivers bytes →
      (Remapped rules source (t.put (dir ++ [name]) (.file written mode)) output summary ↔
        t.goesThroughItsEnd output = false) := by
  intro written
  obtain ⟨bytes, mode', hn, hpass⟩ := passOver_eq_ok h
  refine ⟨bytes, FileTree.read_eq_ok_iff.mpr ⟨source, mode', hlook, hn⟩, fun source' hs => ?_⟩
  obtain ⟨hresult, htaken⟩ := hpass source' hs
  rw [Remapped, FileTree.read_put_file_iff hplace, htaken]
  exact ⟨fun ⟨⟨_, hends⟩, _⟩ => hends, fun hends => ⟨⟨rfl, hends⟩, hresult⟩⟩

/-- **What a successful pass has remapped.** The input was a file. The output holds afterwards what
the pass over the bytes of this file writes, and the summary is the one of that pass, just if
neither a direct pass has emptied its own input, which held some bytes, nor an atomic pass has
replaced a link that its output path goes through. -/
theorem runOn_remaps_iff {atomic : Bool}
    (h : (runOn system rules atomic input output t).result = .ok summary) :
    ∃ bytes, t.read input = .ok bytes ∧ ∀ source : Source, source.Delivers bytes →
      (Remapped rules source (runOn system rules atomic input output t).tree output summary ↔
        ¬(atomic = false ∧ t.look input = t.look output ∧ bytes ≠ []) ∧
        ¬(atomic = true ∧ t.goesThroughItsEnd output = true)) := by
  cases atomic with
  | true =>
    rw [runOn, if_pos rfl] at h ⊢
    have hrun := runAtomic_run system rules input output t
    generalize runAtomic system rules input output t = r at h hrun
    cases hrun with
    | unopened | unstaged | kept => cases h
    | stopped _ _ herror =>
      rw [reported_eq_ok_iff, herror] at h
      cases h
    | replaced hopen _ _ _ hplace =>
      have hlook := (System.attempt_eq_ok_iff.mp hopen).2
      obtain ⟨bytes, hbytes, hiff⟩ :=
        remaps_atomic_iff hlook hplace (reported_eq_ok_iff.mp h)
      refine ⟨bytes, hbytes, fun source hs => (hiff source hs).trans ?_⟩
      simp
  | false =>
    rw [runOn, if_neg (by decide)] at h ⊢
    have hrun := runDirect_run system rules input output t
    generalize runDirect system rules input output t = r at h hrun
    cases hrun with
    | unopened | uncreated => cases h
    | ran hopen _ hplace hwas =>
      have hlook := (System.attempt_eq_ok_iff.mp hopen).2
      obtain ⟨bytes, hbytes, hiff⟩ :=
        remaps_direct_iff hlook hplace (hwas.imp_right And.left) (reported_eq_ok_iff.mp h)
      refine ⟨bytes, hbytes, fun source hs => (hiff source hs).trans ?_⟩
      simp

/-- An atomic pass over its own output. -/
theorem runOn_remaps_onto_itself :
    let table := Utf8.encode "49200, /* (0xC030) */\n"
    let t : FileTree := ⟨[(["table"], .file table 0o644), (["out"], .link "table")], [], 0o022⟩
    let r := runOn .sound .standard true "table" "out" t
    let summary : Summary := ⟨1, 1, ⟨128, "0xC030", false, "0x0000"⟩⟩
    t.look "table" = t.look "out" ∧ r.result = .ok summary ∧
      Remapped .standard (.ofBytes table) r.tree "out" summary ∧
      r.tree.read "out" = .ok (Utf8.encode "  128,\t/* 0xC030 */\n") := by
  intro table t r summary
  have hresult : r.result = .ok summary := by decide +kernel
  obtain ⟨bytes, hbytes, hiff⟩ := runOn_remaps_iff hresult
  have htable : t.read "table" = .ok table := by decide +kernel
  rw [htable] at hbytes
  cases hbytes
  have hremapped : Remapped .standard (.ofBytes table) r.tree "out" summary :=
    (hiff _ (Source.delivers_ofBytes table)).mpr ⟨nofun, fun h => absurd h.2 (by decide +kernel)⟩
  refine ⟨by decide +kernel, hresult, hremapped, hremapped.1.trans ?_⟩
  decide +kernel

/-- A direct pass over its own output ends well, and the table is lost. -/
theorem runDirect_loses_its_input :
    let table := Utf8.encode "49200, /* (0xC030) */\n"
    let t : FileTree := ⟨[(["table"], .file table 0o644)], [], 0o022⟩
    let r := runOn .sound .standard false "table" "table" t
    let p := Pass.run .standard (.ofBytes table) Sink.perfect
    t.read "table" = .ok table ∧ (r.result = .ok .initial ∧ r.tree.read "table" = .ok []) ∧
      p.result = .ok ⟨1, 1, ⟨128, "0xC030", false, "0x0000"⟩⟩ ∧
      p.sink.taken.toList = Utf8.encode "  128,\t/* 0xC030 */\n" := by
  decide +kernel

end FilePass

end GlyphRebase
