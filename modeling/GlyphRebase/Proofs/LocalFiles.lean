import GlyphRebase.Proofs.Layering

/-!
# Local configuration files

A directory may have a configuration file of its own, which is laid between other layers. If no file
has its path, a file with `.toml` once more after its name is taken for it; and a file that is no
text is passed over like one that is missing. What a path holds is its `Content`, `Counts` says what
comes of each content, and `load_localFile` says which path counts.
-/

namespace GlyphRebase.Config

/-! ### One layer among others -/

section
variable {t : FileTree} {l l' : Layer} {before after : List Layer}

/-- The single settings among layers, if all of them can be read. -/
def readSettings (layers : List Layer) : Except Fault (List (KeyPath × Value)) :=
  (layers.mapM Layer.setting?).map (List.filterMap id)

theorem load_eq (t : FileTree) (layers : List Layer) :
    load t layers = (do
      let settings ← readSettings layers
      let v ← layers.foldlM (Layer.lay t) defaults
      Settings.ofValue (settings.foldl (fun v (p, new) => p.assign new v) v)) := by
  rw [load, build, readSettings]
  cases layers.mapM Layer.setting? with
  | error fault => rfl
  | ok settings =>
    cases layers.foldlM (Layer.lay t) defaults with
    | error fault => simp [Except.map, bind, Except.bind]
    | ok v => simp [Except.map, bind, Except.bind, pure, Except.pure]

/-- A layer that is no single setting adds none. -/
theorem readSettings_insert (hl : l.setting? = .ok none) :
    readSettings (before ++ l :: after) = readSettings (before ++ after) := by
  rw [readSettings, readSettings, List.mapM_append, List.mapM_append, List.mapM_cons, hl]
  cases before.mapM Layer.setting? with
  | error fault => rfl
  | ok settings =>
    cases after.mapM Layer.setting? with
    | error fault => rfl
    | ok settings' => simp [Except.map, bind, Except.bind, pure, Except.pure]

/-- Layers that do the same to every configuration can stand for each other. -/
theorem load_congr (hl : l.setting? = .ok none) (hl' : l'.setting? = .ok none)
    (h : ∀ v, l.lay t v = l'.lay t v) :
    load t (before ++ l :: after) = load t (before ++ l' :: after) := by
  rw [load_eq, load_eq, readSettings_insert hl, readSettings_insert hl', List.foldlM_append,
    List.foldlM_append]
  simp only [List.foldlM_cons, h]

/-- A layer that leaves every configuration as it is can be left out. -/
theorem load_of_idle (hl : l.setting? = .ok none) (h : ∀ v, l.lay t v = .ok v) :
    load t (before ++ l :: after) = load t (before ++ after) := by
  rw [load_eq, load_eq, readSettings_insert hl, List.foldlM_append, List.foldlM_append]
  simp only [List.foldlM_cons, h]
  rfl

/-- A layer that can be laid over nothing lets no settings come out. -/
theorem load_of_failing (h : ∀ v, ∃ fault, l.lay t v = .error fault) :
    ∃ fault, load t (before ++ l :: after) = .error fault := by
  rw [load_eq, List.foldlM_append]
  cases readSettings (before ++ l :: after) with
  | error fault => exact ⟨fault, rfl⟩
  | ok settings =>
    cases before.foldlM (Layer.lay t) defaults with
    | error fault => exact ⟨fault, rfl⟩
    | ok v =>
      obtain ⟨fault, hfault⟩ := h v
      refine ⟨fault, ?_⟩
      simp [List.foldlM_cons, hfault, bind, Except.bind]

end

/-! ### What a path holds -/

/-- What a path holds for a configuration. -/
inductive Content where
  /-- No file. -/
  | absent
  /-- A file that is no text. -/
  | noText
  /-- A text that is no document. -/
  | noDocument
  /-- A document, made of these members. -/
  | document (ms : List (String × Toml))

/-- What bytes are to a configuration. -/
def Content.ofBytes (bytes : List UInt8) : Content :=
  match Utf8.decode bytes with
  | .error _ => noText
  | .ok text =>
    match Toml.parse text with
    | none => noDocument
    | some ms => document ms

/-- What a path of a file tree holds for a configuration. -/
def content (t : FileTree) (path : String) : Content :=
  match t.read path with
  | .error _ => .absent
  | .ok bytes => .ofBytes bytes

/-- Lays the members of a document over a configuration, one after the other. -/
def layAll (v : Value) (file : String) (ms : List (String × Toml)) : Value :=
  (Value.ofMembers (some file) ms).foldl (fun v (key, new) => layMember v key new) v

section
variable {t : FileTree} {path found dir : String} {ms : List (String × Toml)} {v : Value}

theorem Content.ofBytes_ne_absent (bytes : List UInt8) : ofBytes bytes ≠ absent := by
  rw [ofBytes]
  cases Utf8.decode bytes with
  | error fault => simp
  | ok text => cases h : Toml.parse text <;> simp [h]

theorem isFile_iff : t.isFile path = true ↔ content t path ≠ .absent := by
  rw [FileTree.isFile, content]
  cases t.read path with
  | error fault => simp [Except.toBool]
  | ok bytes => simp [Except.toBool, Content.ofBytes_ne_absent]

/-- A file at the path itself is the one that is found. -/
theorem find?_of_present (h : content t path ≠ .absent) : find? t path = some path := by
  rw [find?, if_pos (isFile_iff.mpr h)]

/-- Without a file at the path itself, the path with the ending counts. -/
theorem find?_of_absent (h : content t path = .absent) :
    find? t path = (withEnding? t path).filter t.isFile := by
  rw [find?, if_neg]
  exact fun hfile => isFile_iff.mp hfile h

/-- What is found is a file. -/
theorem isFile_of_find? (h : find? t path = some found) : t.isFile found = true := by
  rw [find?] at h
  split at h
  · cases h
    assumption
  · exact (Option.filter_eq_some_iff.mp h).2

/-- What reading the text of a path comes to is told by the content of the file that is found. -/
theorem readText_cases (h : find? t path = some found) :
    (content t found = .noText ∧ readText t path = .error .notText) ∨
      ∃ text, readText t path = .ok ((Path.ofText found).seenFrom t.home, text) ∧
        (content t found = .noDocument ∧ Toml.parse text = none ∨
          ∃ ms, content t found = .document ms ∧ Toml.parse text = some ms) := by
  have hfile := isFile_of_find? h
  rw [FileTree.isFile] at hfile
  cases hread : t.read found with
  | error fault => simp [hread, Except.toBool] at hfile
  | ok bytes =>
    simp only [readText, content, Content.ofBytes, h, hread, Except.toOption, Option.map_some]
    cases Utf8.decode bytes with
    | error fault => exact .inl ⟨rfl, rfl⟩
    | ok text =>
      refine .inr ⟨text, rfl, ?_⟩
      cases hparse : Toml.parse text with
      | none => exact .inl ⟨by simp [hparse], rfl⟩
      | some ms => exact .inr ⟨ms, by simp [hparse], rfl⟩

/-! ### What a local file does -/

/-- A document that is found is laid over every configuration, whether it was asked for or not. -/
theorem lay_of_document (hfound : find? t path = some found) (h : content t found = .document ms) :
    ∃ text, readText t path = .ok ((Path.ofText found).seenFrom t.home, text) ∧
      layText v ((Path.ofText found).seenFrom t.home) text =
        .ok (layAll v ((Path.ofText found).seenFrom t.home) ms) := by
  obtain ⟨h', -⟩ | ⟨text, hread, ⟨h', -⟩ | ⟨ms', h', hparse⟩⟩ := readText_cases hfound
  · cases h.symm.trans h'
  · cases h.symm.trans h'
  · cases h.symm.trans h'
    refine ⟨text, hread, ?_⟩
    simp only [layText, hparse, layAll]

theorem lay_localFile_of_document (hfound : find? t (localPath dir) = some found)
    (h : content t found = .document ms) :
    (Layer.localFile dir).lay t v = .ok (layAll v ((Path.ofText found).seenFrom t.home) ms) := by
  obtain ⟨text, hread, hlay⟩ := lay_of_document hfound h
  rw [Layer.lay_localFile, hread]
  exact hlay

theorem lay_file_of_document (h : content t found = .document ms) :
    (Layer.file found).lay t v = .ok (layAll v ((Path.ofText found).seenFrom t.home) ms) := by
  obtain ⟨text, hread, hlay⟩ := lay_of_document (find?_of_present (by simp [h])) h
  rw [Layer.lay_file, hread]
  exact hlay

/-- A text that is found and is no document can be laid over nothing. -/
theorem lay_localFile_of_noDocument (hfound : find? t (localPath dir) = some found)
    (h : content t found = .noDocument) :
    ∃ fault, (Layer.localFile dir).lay t v = .error fault := by
  obtain ⟨h', -⟩ | ⟨text, hread, ⟨-, hparse⟩ | ⟨ms', h', -⟩⟩ := readText_cases hfound
  · cases h.symm.trans h'
  · refine ⟨.badDocument ((Path.ofText found).seenFrom t.home), ?_⟩
    rw [Layer.lay_localFile, hread]
    simp only [layText, hparse]
  · cases h.symm.trans h'

/-- A file that is found and is no text leaves every configuration as it is. -/
theorem lay_localFile_of_noText (hfound : find? t (localPath dir) = some found)
    (h : content t found = .noText) : (Layer.localFile dir).lay t v = .ok v := by
  obtain ⟨-, hread⟩ | ⟨text, -, ⟨h', -⟩ | ⟨ms', h', -⟩⟩ := readText_cases hfound
  · rw [Layer.lay_localFile, hread]
  · cases h.symm.trans h'
  · cases h.symm.trans h'

/-- If no file is found, every configuration stays as it is. -/
theorem lay_localFile_of_missing (hmissing : find? t (localPath dir) = none) :
    (Layer.localFile dir).lay t v = .ok v := by
  rw [Layer.lay_localFile, readText, hmissing]

end

/-! ### Local files among other layers -/

/-- What comes of the local file of a directory between other layers if the file of a path counts
for it, by what the path holds: a document is laid like a file that was asked for, and another text
is an error. What is no text, or no file, is passed over. -/
def Counts (t : FileTree) (before after : List Layer) (dir path : String) : Content → Prop
  | .document ms =>
    load t (before ++ .localFile dir :: after) = load t (before ++ .file path :: after) ∧
      ∀ v, (Layer.localFile dir).lay t v = .ok (layAll v ((Path.ofText path).seenFrom t.home) ms)
  | .noDocument => ∃ fault, load t (before ++ .localFile dir :: after) = .error fault
  | .noText | .absent => load t (before ++ .localFile dir :: after) = load t (before ++ after)

section
variable {t : FileTree} {before after : List Layer} {dir found : String}

/-- The file that is found counts. -/
theorem counts_of_found (hfound : find? t (localPath dir) = some found) :
    Counts t before after dir found (content t found) := by
  cases h : content t found with
  | document ms =>
    refine ⟨load_congr rfl rfl fun v => ?_, fun v => lay_localFile_of_document hfound h⟩
    rw [lay_localFile_of_document hfound h, lay_file_of_document h]
  | noDocument => exact load_of_failing fun v => lay_localFile_of_noDocument hfound h
  | noText => exact load_of_idle rfl fun v => lay_localFile_of_noText hfound h
  | absent => exact absurd h (isFile_iff.mp (isFile_of_find? hfound))

theorem load_localFile_of_missing (hmissing : find? t (localPath dir) = none) :
    load t (before ++ .localFile dir :: after) = load t (before ++ after) :=
  load_of_idle rfl fun _ => lay_localFile_of_missing hmissing

/-- **What a local file does.** The local file of a directory, between any other layers, counts if
there is a file at its path: a document is laid like a file that was asked for, another text is an
error, and what is no text is passed over. If there is no file at its path, the path with the
ending once more counts in its place. And if that is no path, settings come out as they would
without the layer. -/
theorem load_localFile (t : FileTree) (before after : List Layer) (dir : String) :
    let path := localPath dir
    (content t path ≠ .absent → Counts t before after dir path (content t path)) ∧
      (content t path = .absent →
        (∀ other, withEnding? t path = some other →
          Counts t before after dir other (content t other)) ∧
        (withEnding? t path = none →
          load t (before ++ .localFile dir :: after) = load t (before ++ after))) := by
  intro path
  refine ⟨fun hpresent => counts_of_found (find?_of_present hpresent), fun habsent => ?_⟩
  have hfind := find?_of_absent habsent
  constructor
  · intro other hother
    rw [hother] at hfind
    cases hcontent : content t other with
    | absent =>
      have hno : ¬t.isFile other = true := fun hfile => isFile_iff.mp hfile hcontent
      rw [Option.filter_some, if_neg hno] at hfind
      exact load_localFile_of_missing hfind
    | _ =>
      have hyes : t.isFile other = true := isFile_iff.mpr (by simp [hcontent])
      rw [Option.filter_some, if_pos hyes] at hfind
      exact hcontent ▸ counts_of_found hfind
  · intro hnone
    rw [hnone] at hfind
    exact load_localFile_of_missing hfind

/-- A local file that is no text, a directory in the place of the local file, and a file with the
ending once more after its name: the first two are passed over, and the third is taken. -/
theorem load_localFile_half_honoured :
    let noText : FileTree := ⟨[(["keyfont.toml"], .file [0xFF] 0o644)], [], 0o022⟩
    let folder : FileTree := ⟨[(["keyfont.toml"], .directory 0o755)], [], 0o022⟩
    let other : FileTree := ⟨[(["keyfont.toml.toml"],
      .file (Utf8.encode "[remap]\noffset = 5\n") 0o644)], [], 0o022⟩
    (content noText (localPath ".") = .noText ∧
        load noText [.localFile "."] = .ok Settings.builtin) ∧
      (folder.look (localPath ".") = .ok ["keyfont.toml"] ∧
        load folder [.localFile "."] = .ok Settings.builtin) ∧
      content other (localPath ".") = .absent ∧
        load other [.localFile "."] = .ok { Settings.builtin with rules.offset := 5 } ∧
        load other [] = .ok Settings.builtin := by
  intro noText folder other
  have hbytes : noText.read (localPath ".") = .ok [0xFF] := by decide +kernel
  have hmissing : other.read (localPath ".") = .error .noEntry := by decide +kernel
  refine ⟨⟨?_, by decide +kernel⟩, ⟨by decide +kernel, by decide +kernel⟩, ?_,
    by decide +kernel, by decide +kernel⟩
  · rw [content, hbytes]
    rfl
  · rw [content, hmissing]

end

end GlyphRebase.Config
