import GlyphRebase.Proofs.SettingKeys
import Mathlib.Data.List.Basic

/-!
# Layers of settings

What becomes of the settings when layers are laid over each other. A layer fits if it chooses
nothing but known settings, by scalars of their own types (`Layer.Fits`): a local file may also be
missing. Laying a file over a configuration makes its choices after those that the configuration
shows already (`Layer.lay_shows`), and the single settings make theirs after all files. So a setting
is what the last single setting for it says, or else the last file that gives it, or else the
default (`load_of_layers`).
-/

namespace GlyphRebase.Config

/-! ### What a document chooses -/

/-- The scalar that a value of a document is, if it is a text, a whole number or a flag. -/
def Scalar.ofToml? : Toml → Option Scalar
  | .text s => some (.text s)
  | .integer n => some (.integer n)
  | .boolean b => some (.boolean b)
  | _ => none

namespace Choice

/-- The choice of a scalar for a setting, if it is of the setting's own type. -/
def of? (k : Key) (s : Scalar) : Option Choice :=
  if h : (k.read? s).isSome then some ⟨k, s, h⟩ else none

/-- The choice that a field of a section makes. -/
def ofField? (S : Schema) : String × Toml → Option Choice
  | (field, value) => do
    let k ← Key.all.find? fun k => k.schema = S ∧ k.field = field
    of? k (← Scalar.ofToml? value)

/-- The choices that a section of a document makes. -/
def ofSection? : String × Toml → Option (List Choice)
  | (name, .table fields) => do
    let S ← sections.find? fun S => S.key = name
    fields.mapM (ofField? S)
  | _ => none

/-- The choices that a document makes, if it is made of sections with known fields. -/
def ofDocument? (ms : List (String × Toml)) : Option (List Choice) :=
  (ms.mapM ofSection?).map List.flatten

variable {S : Schema} {c : Choice}

theorem of?_eq_some {k : Key} {s : Scalar} (h : of? k s = some c) : c.key = k ∧ c.scalar = s := by
  rw [of?] at h
  split at h
  · cases h
    exact ⟨rfl, rfl⟩
  · cases h

theorem ofToml_of_scalar {value : Toml} {s : Scalar} (h : Scalar.ofToml? value = some s)
    (file : Option String) : Value.ofToml file value = .scalar s file := by
  cases value <;> cases h <;> rfl

theorem ofField?_eq_some {field : String} {value : Toml}
    (h : ofField? S (field, value) = some c) :
    c.key.schema = S ∧ c.key.field = field ∧
      ∀ file, Value.ofToml file value = .scalar c.scalar file := by
  obtain ⟨k, hk, h⟩ := Option.bind_eq_some_iff.mp h
  obtain ⟨s, hs, h⟩ := Option.bind_eq_some_iff.mp h
  obtain ⟨rfl, rfl⟩ := of?_eq_some h
  obtain ⟨hschema, hfield⟩ : c.key.schema = S ∧ c.key.field = field := by
    simpa using List.find?_some hk
  exact ⟨hschema, hfield, ofToml_of_scalar hs⟩

theorem ofSection?_eq_some {name : String} {value : Toml} {ds : List Choice}
    (h : ofSection? (name, value) = some ds) :
    ∃ S ∈ sections, S.key = name ∧ ∃ fields, value = .table fields ∧
      fields.mapM (ofField? S) = some ds := by
  cases value with
  | table fields =>
    obtain ⟨S, hS, hfields⟩ := Option.bind_eq_some_iff.mp h
    have hkey : S.key = name := by simpa using List.find?_some hS
    exact ⟨S, List.mem_of_find?_eq_some hS, hkey, fields, rfl, hfields⟩
  | _ => cases h

end Choice

theorem mapM_cons_eq_some {α β : Type} {f : α → Option β} {a : α} {as : List α} {bs : List β}
    (h : (a :: as).mapM f = some bs) :
    ∃ b bs', f a = some b ∧ as.mapM f = some bs' ∧ bs = b :: bs' := by
  rw [List.mapM_cons] at h
  obtain ⟨b, hb, h⟩ := Option.bind_eq_some_iff.mp h
  obtain ⟨bs', hbs', h⟩ := Option.bind_eq_some_iff.mp h
  cases h
  exact ⟨b, bs', hb, hbs', rfl⟩

namespace Value

variable {v : Value} {cs : List Choice}

/-- Fields that are merged into a section make their choices there. -/
theorem merge_fields_shows {S : Schema} {fields : List (String × Toml)} {ds : List Choice}
    (hds : fields.mapM (Choice.ofField? S) = some ds) (file : Option String) {ms : Members}
    (h : Members.Shows ms S cs) (origin : Option String) :
    ∃ ms', merge (.table ms origin) (ofMembers file fields) = .table ms' origin ∧
      Members.Shows ms' S (cs ++ ds) := by
  induction fields generalizing ms cs ds with
  | nil =>
    obtain rfl : [] = ds := Option.some.inj hds
    exact ⟨ms, rfl, by rwa [List.append_nil]⟩
  | cons member fields ih =>
    obtain ⟨field, value⟩ := member
    obtain ⟨c, ds', hc, hds', rfl⟩ := mapM_cons_eq_some hds
    obtain ⟨hschema, rfl, hvalue⟩ := Choice.ofField?_eq_some hc
    obtain ⟨ms', hset, hshows⟩ := set_field_shows h hschema origin file
    rw [ofMembers, merge, hvalue, hset, List.append_cons]
    exact ih hds' hshows

theorem schema_of_mem_fields {S : Schema} {fields : List (String × Toml)} {ds : List Choice}
    (hds : fields.mapM (Choice.ofField? S) = some ds) : ∀ d ∈ ds, d.key.schema = S := by
  induction fields generalizing ds with
  | nil =>
    obtain rfl : [] = ds := Option.some.inj hds
    exact List.forall_mem_nil _
  | cons member fields ih =>
    obtain ⟨c, ds', hc, hds', rfl⟩ := mapM_cons_eq_some hds
    exact List.forall_mem_cons.mpr ⟨(Choice.ofField?_eq_some hc).1, ih hds'⟩

/-- A section of a document makes its choices. -/
theorem Shows.layMember (h : v.Shows cs) {name : String} {value : Toml} {ds : List Choice}
    (hds : Choice.ofSection? (name, value) = some ds) (file : Option String) :
    (layMember v name (ofToml file value)).Shows (cs ++ ds) := by
  obtain ⟨S, hS, rfl, fields, rfl, hfields⟩ := Choice.ofSection?_eq_some hds
  rw [Config.layMember, parse_section_key S hS]
  show ((⟨S.key, []⟩ : KeyPath).assign (ofToml file (.table fields)) v).Shows _
  rw [ofToml, KeyPath.assign, KeyPath.assignFrom, set]
  refine h.changeMember hS (schema_of_mem_fields hfields) fun ms origin hms => ?_
  obtain ⟨ms', hmerge, hshows⟩ := merge_fields_shows hfields file hms origin
  exact ⟨ms', origin, hmerge, hshows⟩

/-- A document makes its choices, section by section. -/
theorem Shows.layDocument (h : v.Shows cs) {ms : List (String × Toml)} {dss : List (List Choice)}
    (hdss : ms.mapM Choice.ofSection? = some dss) (file : Option String) :
    ((ofMembers file ms).foldl (fun v (key, new) => Config.layMember v key new) v).Shows
      (cs ++ dss.flatten) := by
  induction ms generalizing v cs dss with
  | nil =>
    obtain rfl : [] = dss := Option.some.inj hdss
    rwa [List.flatten_nil, List.append_nil]
  | cons member ms ih =>
    obtain ⟨name, value⟩ := member
    obtain ⟨ds, dss', hds, hdss', rfl⟩ := mapM_cons_eq_some hdss
    rw [ofMembers, List.foldl_cons, List.flatten_cons, ← List.append_assoc]
    exact ih (h.layMember hds file) hdss'

end Value

/-! ### What a layer chooses -/

/-- The choices of the file of a path, if there is one and it makes nothing but choices. -/
def inFile? (t : FileTree) (path : String) : Option (List Choice) := do
  let found ← find? t path
  let bytes ← (t.read found).toOption
  let text ← (Utf8.decode bytes).toOption
  Choice.ofDocument? (← Toml.parse text)

namespace Layer

/-- Is the layer a single setting? -/
def isSetting : Layer → Bool
  | setting .. => true
  | _ => false

/-- The choices of a layer, if it makes nothing but choices. A local file may be missing. -/
def choices? (t : FileTree) : Layer → Option (List Choice)
  | localFile dir =>
    if (find? t (localPath dir)).isNone then some [] else inFile? t (localPath dir)
  | file path => inFile? t path
  | setting key s => do
    let k ← Key.all.find? fun k => k.dotted = key
    return [← Choice.of? k s]

/-- The layer makes nothing but choices: it gives known settings scalars of their own types. -/
def Fits (t : FileTree) (l : Layer) : Prop := (l.choices? t).isSome = true

instance (t : FileTree) (l : Layer) : Decidable (l.Fits t) := inferInstanceAs (Decidable (_ = _))

/-- The choices of a layer. -/
def choices (t : FileTree) (l : Layer) : List Choice := (l.choices? t).getD []

/-- What a layer gives for a setting. -/
def gives? (t : FileTree) (k : Key) (l : Layer) : Option k.Domain := chosen? (l.choices t) k

/-- What the last of several layers that give a setting gives for it. -/
def last? (t : FileTree) (k : Key) (layers : List Layer) : Option k.Domain :=
  (layers.filterMap (gives? t k)).getLast?

variable {t : FileTree} {l : Layer} {v : Value} {cs : List Choice}

theorem Fits.choices?_eq (h : l.Fits t) : l.choices? t = some (l.choices t) :=
  (Option.some_get h).symm.trans (congrArg some (Option.get_eq_getD ..))

theorem chosen?_flatMap_choices (t : FileTree) (k : Key) (layers : List Layer) :
    chosen? (layers.flatMap (choices t)) k = last? t k layers := by
  induction layers with
  | nil => rfl
  | cons l layers ih =>
    rw [List.flatMap_cons, chosen?_append, ih, last?, last?]
    cases h : gives? t k l with
    | none =>
      rw [List.filterMap_cons_none h, show chosen? (l.choices t) k = none from h, Option.or_none]
    | some x =>
      rw [List.filterMap_cons_some h, show chosen? (l.choices t) k = some x from h,
        List.getLast?_cons]
      cases (layers.filterMap (gives? t k)).getLast? <;> rfl

end Layer

/-! ### Laying layers -/

section

variable {t : FileTree} {layers : List Layer} {v : Value} {cs : List Choice}

theorem inFile?_eq_some {path : String} {ds : List Choice} (h : inFile? t path = some ds) :
    ∃ name text ms, readText t path = .ok (name, text) ∧ Toml.parse text = some ms ∧
      Choice.ofDocument? ms = some ds := by
  obtain ⟨found, hfound, h⟩ := Option.bind_eq_some_iff.mp h
  obtain ⟨bytes, hbytes, h⟩ := Option.bind_eq_some_iff.mp h
  obtain ⟨text, htext, h⟩ := Option.bind_eq_some_iff.mp h
  obtain ⟨ms, hms, h⟩ := Option.bind_eq_some_iff.mp h
  have hdecoded : Utf8.decode bytes = .ok text := by
    cases hdecode : Utf8.decode bytes with
    | ok _ => rw [hdecode] at htext; cases htext; rfl
    | error _ => rw [hdecode] at htext; cases htext
  refine ⟨(Path.ofText found).seenFrom t.home, text, ms, ?_, hms, h⟩
  rw [readText, hfound]
  simp only [hbytes, Option.map_some, hdecoded]

theorem layText_shows (h : v.Shows cs) {text : String} {ms : List (String × Toml)}
    {ds : List Choice} (hms : Toml.parse text = some ms) (hds : Choice.ofDocument? ms = some ds)
    (file : String) : ∃ v', layText v file text = .ok v' ∧ v'.Shows (cs ++ ds) := by
  obtain ⟨dss, hdss, rfl⟩ := Option.map_eq_some_iff.mp hds
  refine ⟨_, ?_, h.layDocument hdss (some file)⟩
  rw [layText, hms]

theorem Layer.lay_file (t : FileTree) (v : Value) (path : String) :
    (Layer.file path).lay t v =
      (readText t path).bind fun (name, text) => layText v name text := rfl

theorem Layer.lay_localFile (t : FileTree) (v : Value) (dir : String) :
    (Layer.localFile dir).lay t v =
      match readText t (localPath dir) with
      | .ok (name, text) => layText v name text
      | .error _ => .ok v := rfl

/-- A layer that is no single setting makes its choices. -/
theorem Layer.lay_shows {l : Layer} (hl : l.Fits t) (h : v.Shows cs) :
    ∃ v', l.lay t v = .ok v' ∧
      v'.Shows (cs ++ if l.isSetting then [] else l.choices t) := by
  have hchoices := hl.choices?_eq
  cases l with
  | setting key s => exact ⟨v, rfl, by rwa [isSetting, if_pos rfl, List.append_nil]⟩
  | file path =>
    obtain ⟨name, text, ms, hread, hms, hds⟩ := inFile?_eq_some hchoices
    obtain ⟨v', hlay, hshows⟩ := layText_shows h hms hds name
    refine ⟨v', ?_, hshows⟩
    rw [lay_file, hread]
    exact hlay
  | localFile dir =>
    rw [choices?] at hchoices
    by_cases hnone : (find? t (localPath dir)).isNone = true
    · rw [if_pos hnone] at hchoices
      have hmissing : readText t (localPath dir) = .error (.notFound (localPath dir)) := by
        rw [readText, Option.isNone_iff_eq_none.mp hnone]
      refine ⟨v, by rw [lay_localFile, hmissing], ?_⟩
      rwa [← Option.some.inj hchoices, ite_self, List.append_nil]
    · rw [if_neg hnone] at hchoices
      obtain ⟨name, text, ms, hread, hms, hds⟩ := inFile?_eq_some hchoices
      obtain ⟨v', hlay, hshows⟩ := layText_shows h hms hds name
      refine ⟨v', ?_, hshows⟩
      rw [lay_localFile, hread]
      exact hlay

/-- Layers make the choices of the files among them, in order. -/
theorem lay_all_shows (hfits : ∀ l ∈ layers, l.Fits t) (h : v.Shows cs) :
    ∃ v', layers.foldlM (Layer.lay t) v = .ok v' ∧
      v'.Shows (cs ++ (layers.filter (!·.isSetting)).flatMap (Layer.choices t)) := by
  induction layers generalizing v cs with
  | nil => exact ⟨v, rfl, by rwa [List.filter_nil, List.flatMap_nil, List.append_nil]⟩
  | cons l layers ih =>
    obtain ⟨hl, hlayers⟩ := List.forall_mem_cons.mp hfits
    obtain ⟨v₁, hlay, hshows₁⟩ := Layer.lay_shows hl h
    obtain ⟨v', hfold, hshows⟩ := ih hlayers hshows₁
    refine ⟨v', ?_, ?_⟩
    · rw [List.foldlM_cons, hlay]
      exact hfold
    · cases hl : l.isSetting <;> simpa [hl] using hshows

/-- A single setting makes its choice. -/
theorem setting?_eq {l : Layer} (hl : l.Fits t) :
    (l.isSetting = false ∧ l.setting? = .ok none) ∨
      ∃ c, l.isSetting = true ∧ l.choices t = [c] ∧
        l.setting? = .ok (some (c.key.path, .scalar c.scalar none)) := by
  have hchoices := hl.choices?_eq
  cases l with
  | localFile | file => exact .inl ⟨rfl, rfl⟩
  | setting key s =>
    obtain ⟨k, hk, hmade⟩ := Option.bind_eq_some_iff.mp hchoices
    obtain ⟨c, hc, hone⟩ := Option.bind_eq_some_iff.mp hmade
    obtain ⟨rfl, rfl⟩ := Choice.of?_eq_some hc
    have hkey : c.key.dotted = key := by simpa using List.find?_some hk
    refine .inr ⟨c, rfl, (Option.some.inj hone).symm, ?_⟩
    rw [Layer.setting?, ← hkey, Key.parse_dotted]

/-- The single settings among layers can be read, and make their choices. -/
theorem settings_shows (hfits : ∀ l ∈ layers, l.Fits t) :
    ∃ settings, layers.mapM Layer.setting? = .ok settings ∧ ∀ (v : Value) cs, v.Shows cs →
      ((settings.filterMap id).foldl (fun v (p, new) => p.assign new v) v).Shows
        (cs ++ (layers.filter (·.isSetting)).flatMap (Layer.choices t)) := by
  induction layers with
  | nil =>
    exact ⟨[], rfl, fun v cs h => by rwa [List.filter_nil, List.flatMap_nil, List.append_nil]⟩
  | cons l layers ih =>
    obtain ⟨hl, hlayers⟩ := List.forall_mem_cons.mp hfits
    obtain ⟨settings, hsettings, hshows⟩ := ih hlayers
    obtain ⟨hno, hnone⟩ | ⟨c, hyes, hc, hsome⟩ := setting?_eq hl
    · refine ⟨none :: settings, ?_, fun v cs h => ?_⟩
      · rw [List.mapM_cons, hnone, hsettings]
        rfl
      · rw [List.filter_cons_of_neg (by rw [hno]; decide)]
        exact hshows v cs h
    · refine ⟨some (c.key.path, .scalar c.scalar none) :: settings, ?_, fun v cs h => ?_⟩
      · rw [List.mapM_cons, hsome, hsettings]
        rfl
      · rw [List.filter_cons_of_pos hyes, List.flatMap_cons, hc, ← List.append_assoc]
        exact hshows _ _ (h.assign c)

end

/-! ### The settings of layers -/

/-- The value that layers leave a setting with: what the last single setting for it says, or else
what the last file that gives it says, or else the default. -/
def resolved (t : FileTree) (layers : List Layer) (k : Key) : k.Domain :=
  ((Layer.last? t k (layers.filter (·.isSetting))).or
    (Layer.last? t k (layers.filter (!·.isSetting)))).getD (Settings.builtin.get k)

section

variable {t : FileTree} {layers : List Layer}

/-- Layers that fit can be loaded. -/
theorem load_of_fits (h : ∀ l ∈ layers, l.Fits t) :
    load t layers = .ok (.ofKeys (resolved t layers)) := by
  obtain ⟨settings, hsettings, hassign⟩ := settings_shows h
  obtain ⟨v, hlay, hshows⟩ := lay_all_shows h Value.defaults_shows
  have hbuild : build t layers = .ok
      ((settings.filterMap id).foldl (fun v (p, new) => p.assign new v) v) := by
    rw [build, hsettings]
    show (do let v ← layers.foldlM (Layer.lay t) defaults; _) = _
    rw [hlay]
    rfl
  have hsettled : settled ([] ++ (layers.filter (!·.isSetting)).flatMap (Layer.choices t) ++
      (layers.filter (·.isSetting)).flatMap (Layer.choices t)) = resolved t layers := by
    funext k
    rw [settled, chosen?_append, List.nil_append, Layer.chosen?_flatMap_choices,
      Layer.chosen?_flatMap_choices, resolved]
  rw [load, hbuild, ← hsettled]
  exact (hassign v _ hshows).ofValue

theorem filterMap_filter_swap {α β : Type} {p : α → Bool} {g : α → Option β} {a b : α}
    (h : p a ≠ p b ∨ g a = none ∨ g b = none) (before after : List α) :
    ((before ++ b :: a :: after).filter p).filterMap g =
      ((before ++ a :: b :: after).filter p).filterMap g := by
  rw [List.filter_append, List.filter_append, List.filterMap_append, List.filterMap_append]
  refine congrArg (List.filterMap g (before.filter p) ++ ·) ?_
  cases ha : p a <;> cases hb : p b <;> simp [List.filterMap_cons, ha, hb] at h ⊢
  obtain h | h := h <;> rw [h]

/-- Neighbours change places without effect if only one of them is a single setting, or if no
setting is given by both. -/
theorem resolved_swap {a b : Layer}
    (h : a.isSetting ≠ b.isSetting ∨ ∀ k, a.gives? t k = none ∨ b.gives? t k = none)
    (before after : List Layer) :
    resolved t (before ++ b :: a :: after) = resolved t (before ++ a :: b :: after) := by
  funext k
  have hk : a.isSetting ≠ b.isSetting ∨ a.gives? t k = none ∨ b.gives? t k = none :=
    h.imp_right fun h => h k
  -- The files are those that are no single settings, so what is said of these holds of them too.
  have hk' : (!a.isSetting) ≠ (!b.isSetting) ∨ a.gives? t k = none ∨ b.gives? t k = none :=
    hk.imp_left fun h => fun h' => h (Bool.not_inj h')
  have hsingles : Layer.last? t k ((before ++ b :: a :: after).filter (·.isSetting)) =
      Layer.last? t k ((before ++ a :: b :: after).filter (·.isSetting)) :=
    congrArg List.getLast? (filterMap_filter_swap hk before after)
  have hfiles : Layer.last? t k ((before ++ b :: a :: after).filter (!·.isSetting)) =
      Layer.last? t k ((before ++ a :: b :: after).filter (!·.isSetting)) :=
    congrArg List.getLast? (filterMap_filter_swap hk' before after)
  rw [resolved, resolved, hsingles, hfiles]

/-- A layer does nothing to a setting that it does not give. -/
theorem resolved_without {l : Layer} {k : Key} (h : l.gives? t k = none)
    (before after : List Layer) :
    resolved t (before ++ l :: after) k = resolved t (before ++ after) k := by
  have hsame (p : Layer → Bool) : Layer.last? t k ((before ++ l :: after).filter p) =
      Layer.last? t k ((before ++ after).filter p) := by
    rw [Layer.last?, Layer.last?, List.filter_append, List.filter_append, List.filterMap_append,
      List.filterMap_append, List.filter_cons]
    by_cases hp : p l = true
    · rw [if_pos hp, List.filterMap_cons_none h]
    · rw [if_neg hp]
  rw [resolved, resolved, hsame, hsame]

/-- **Settings come from layers key by key.** Layers of which each makes nothing but choices, in
any order and number, give settings. A setting is what the last single setting for it says, wherever
that stands among the files; if there is none, what the last file that gives it says; and if there
is none, the default. The rules of the pass and the way it writes its output come of these values.
Neighbours change places without effect if only one of them is a single setting, or if no setting is
given by both. And without a layer, all settings but those that the layer gives are the same. -/
theorem load_of_layers (h : ∀ l ∈ layers, l.Fits t) :
    let singles := layers.filter fun l => l.isSetting
    let files := layers.filter fun l => !l.isSetting
    let value (k : Key) : k.Domain :=
      ((singles.filterMap (Layer.gives? t k)).getLast?.or
        (files.filterMap (Layer.gives? t k)).getLast?).getD (Settings.builtin.get k)
    ∃ s, load t layers = .ok s ∧ (∀ k, s.get k = value k) ∧
      s.rules = ⟨value .special, value .offset, value .boundary, value .negative⟩ ∧
      s.atomic = value .atomic ∧
      (∀ before a b after, layers = before ++ a :: b :: after →
        (a.isSetting ≠ b.isSetting ∨ ∀ k, a.gives? t k = none ∨ b.gives? t k = none) →
        load t (before ++ b :: a :: after) = .ok s) ∧
      ∀ before l after, layers = before ++ l :: after →
        ∃ s', load t (before ++ after) = .ok s' ∧
          ∀ k, l.gives? t k = none → s.get k = s'.get k := by
  intro singles files value
  refine ⟨.ofKeys (resolved t layers), load_of_fits h, fun k => Settings.get_ofKeys _ k, rfl, rfl,
    ?_, ?_⟩
  · rintro before a b after rfl hswap
    have hfits : ∀ l ∈ before ++ b :: a :: after, l.Fits t := fun l hl =>
      h l (((List.Perm.swap a b after).append_left before).mem_iff.mp hl)
    rw [load_of_fits hfits, resolved_swap hswap]
  · rintro before l after rfl
    have hfits : ∀ l' ∈ before ++ after, l'.Fits t := fun l' hl' =>
      h l' ((List.sublist_cons_self l after).append_left before |>.subset hl')
    refine ⟨_, load_of_fits hfits, fun k hk => ?_⟩
    rw [Settings.get_ofKeys, Settings.get_ofKeys, resolved_without hk]

end

/-- A single setting in front of two files, of which the second gives the same setting as the first
and another one. -/
theorem load_of_layers_single_first :
    let t : FileTree := ⟨[
      (["keyfont.toml"],
        .file (Utf8.encode "[remap]\noffset = 1\n[report]\nsummary = 'JSON'\n") 0o644),
      (["more.toml"], .file (Utf8.encode "[remap]\noffset = 2\nspecial_index = 3\n") 0o644)],
      [], 0o022⟩
    let single : Layer := .setting "io.atomic_output" (.boolean true)
    let s : Settings := ⟨"input.txt", "output.txt", true, ⟨3, 2, 0x10000, .allow⟩, true, .json⟩
    load t [single, .localFile ".", .file "more.toml"] = .ok s ∧
      load t [.localFile ".", single, .file "more.toml"] = .ok s ∧
      ∃ s', load t [single, .localFile "."] = .ok s' ∧ s.get .summary = s'.get .summary := by
  intro t single s
  have hfits : ∀ l ∈ [single, .localFile ".", .file "more.toml"], l.Fits t := by decide +kernel
  obtain ⟨s₁, hload, -, -, -, hswap, hwithout⟩ := load_of_layers hfits
  have hs : s₁ = s := Except.ok.inj (hload.symm.trans (by decide +kernel))
  obtain ⟨s', hload', hsame⟩ := hwithout [single, .localFile "."] (.file "more.toml") [] rfl
  exact ⟨hs ▸ hload, hs ▸ hswap [] single (.localFile ".") _ rfl (.inl (by decide)), s', hload',
    hs ▸ hsame .summary (by decide +kernel)⟩

end GlyphRebase.Config
