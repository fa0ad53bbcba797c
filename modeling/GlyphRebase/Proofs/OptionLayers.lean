import GlyphRebase.CommandLine.Options
import GlyphRebase.Proofs.Layering

/-!
# The layers of the options

The options of a run become the layers of its configuration: the local file of the working
directory, the configuration file if one is named, and a single setting for everything else that is
given. What an option says of a setting (`Options.given?`) is what its layer gives
(`Options.read?_of_scalar?`), and no layer says anything of another setting. So a setting is what
the option says, or else what the named file gives, or else what the local file gives, or else the
default (`Options.resolved_layers`).
-/

namespace GlyphRebase

open Config

/-! ### Single settings -/

namespace Config

theorem find?_dotted (k : Key) : (Key.all.find? fun k' => k'.dotted = k.dotted) = some k := by
  cases k <;> decide

/-- A single setting of a known name and type makes one choice. -/
theorem Layer.choices?_setting (t : FileTree) (c : Choice) :
    (Layer.setting c.key.dotted c.scalar).choices? t = some [c] := by
  rw [choices?, find?_dotted]
  show (do let c ← Choice.of? c.key c.scalar; pure [c]) = some [c]
  rw [Choice.of?, dif_pos c.fits]
  rfl

theorem Layer.gives?_setting (t : FileTree) (c : Choice) (k : Key) :
    (Layer.setting c.key.dotted c.scalar).gives? t k = c.value? k := by
  rw [gives?, choices, choices?_setting, Option.getD_some, chosen?_singleton]

end Config

namespace CommandLine.Options

/-- What the options say of a setting. A switch has just one thing to say. -/
def given? (o : Options) : (k : Key) → Option k.Domain
  | .input => o.input
  | .output => o.output
  | .atomic => if o.atomic then some true else none
  | .special => o.specialIndex
  | .offset => o.offset
  | .boundary => o.wrapBoundary
  | .negative => if o.rejectNegative then some NegativePolicy.reject else none
  | .progress => if o.quiet then some false else none
  | .summary => o.summary

/-- The scalar that the options give a setting in their layers. -/
def scalar? (o : Options) : Key → Option Scalar
  | .input => o.input.map .text
  | .output => o.output.map .text
  | .atomic => if o.atomic then some (.boolean true) else none
  | .special => o.specialIndex.map .integer
  | .offset => o.offset.map .integer
  | .boundary => o.wrapBoundary.map .integer
  | .negative => if o.rejectNegative then some (.text "reject") else none
  | .progress => if o.quiet then some (.boolean false) else none
  | .summary => o.summary.map fun format => .text format.name

/-- The single settings that the options make, in their order. -/
def singles (o : Options) : List Layer :=
  [Key.input, .output, .offset, .special, .boundary, .negative, .atomic, .progress,
    .summary].flatMap fun k => (o.scalar? k).toList.map (.setting k.dotted)

theorem layers_eq (o : Options) :
    o.layers = .localFile "." :: (o.config.toList.map .file ++ o.singles) := by
  have hchoice (given : Bool) (key : String) (s : Scalar) :
      (if given then some s else none).toList.map (Layer.setting key) =
        if given then [.setting key s] else [] := by
    cases given <;> rfl
  simp only [layers, singles, scalar?, hchoice, List.flatMap_cons, List.flatMap_nil,
    Option.toList_map, List.map_map, List.append_assoc, List.append_nil]
  rfl

variable {o : Options} {t : FileTree} {k : Key}

/-- The scalar in a layer means what the option says. -/
theorem read?_of_scalar? {s : Scalar} (h : o.scalar? k = some s) :
    k.read? s = o.given? k ∧ (k.read? s).isSome := by
  cases k with
  | input | output | offset | special | boundary =>
    obtain ⟨x, hx, rfl⟩ := Option.map_eq_some_iff.mp h
    exact ⟨hx.symm, rfl⟩
  | atomic | progress =>
    obtain ⟨hx, h⟩ := Option.ite_none_right_eq_some.mp h
    cases h
    exact ⟨(if_pos hx).symm, rfl⟩
  | negative =>
    obtain ⟨hx, h⟩ := Option.ite_none_right_eq_some.mp h
    cases h
    have hread : named? [("allow", NegativePolicy.allow), ("reject", .reject)] "reject" =
        some .reject := by decide +kernel
    exact ⟨hread.trans (if_pos hx).symm, Option.isSome_iff_exists.mpr ⟨_, hread⟩⟩
  | summary =>
    obtain ⟨format, hx, rfl⟩ := Option.map_eq_some_iff.mp h
    have hread : named? [("text", SummaryFormat.text), ("json", .json)] format.name =
        some format := by cases format <;> decide +kernel
    exact ⟨hread.trans hx.symm, Option.isSome_iff_exists.mpr ⟨_, hread⟩⟩

theorem given?_of_scalar?_eq_none (h : o.scalar? k = none) : o.given? k = none := by
  cases k with
  | input | output | offset | special | boundary | summary => exact Option.map_eq_none_iff.mp h
  | atomic | negative | progress =>
    exact if_neg fun hx => by
      rw [scalar?, if_pos hx] at h
      cases h

/-- The single settings of options are choices. -/
theorem exists_choice_of_mem_singles {l : Layer} (h : l ∈ o.singles) :
    ∃ c : Choice, l = .setting c.key.dotted c.scalar := by
  obtain ⟨k, -, hl⟩ := List.mem_flatMap.mp h
  obtain ⟨s, hs, rfl⟩ := List.mem_map.mp hl
  exact ⟨⟨k, s, (read?_of_scalar? (Option.mem_toList.mp hs)).2⟩, rfl⟩

theorem isSetting_of_mem_singles {l : Layer} (h : l ∈ o.singles) : l.isSetting = true := by
  obtain ⟨c, rfl⟩ := exists_choice_of_mem_singles h
  rfl

theorem fits_of_mem_singles {l : Layer} (h : l ∈ o.singles) : l.Fits t := by
  obtain ⟨c, rfl⟩ := exists_choice_of_mem_singles h
  rw [Layer.Fits, Layer.choices?_setting]
  rfl

/-- The single settings give what the options say, and nothing else. -/
theorem filterMap_singles (o : Options) (t : FileTree) (k : Key) :
    o.singles.filterMap (Layer.gives? t k) = (o.given? k).toList := by
  have hone (k' : Key) : ((o.scalar? k').toList.map (Layer.setting k'.dotted)).filterMap
      (Layer.gives? t k) = if k' = k then (o.given? k).toList else [] := by
    cases h : o.scalar? k' with
    | none =>
      by_cases hk : k' = k
      · subst hk
        rw [given?_of_scalar?_eq_none h, if_pos rfl]
        rfl
      · rw [if_neg hk]
        rfl
    | some s =>
      have hread := read?_of_scalar? h
      have hgives := Layer.gives?_setting t ⟨k', s, hread.2⟩ k
      show [Layer.setting k'.dotted s].filterMap (Layer.gives? t k) = _
      rw [List.filterMap_cons, hgives, Choice.value?]
      by_cases hk : k' = k
      · subst hk
        rw [if_pos rfl, if_pos rfl, hread.1]
        cases o.given? k' <;> rfl
      · rw [if_neg hk, if_neg hk]
        rfl
  rw [singles, List.filterMap_flatMap]
  simp only [hone]
  -- Every key has its place in the list just once.
  cases k <;> simp

/-- The layers of options fit if the files do. -/
theorem layers_fit (hlocal : (Layer.localFile ".").Fits t)
    (hconfig : ∀ path, o.config = some path → (Layer.file path).Fits t) :
    ∀ l ∈ o.layers, l.Fits t := by
  rw [layers_eq]
  refine List.forall_mem_cons.mpr ⟨hlocal, List.forall_mem_append.mpr ⟨fun l hl => ?_, ?_⟩⟩
  · obtain ⟨path, hpath, rfl⟩ := List.mem_map.mp hl
    exact hconfig path (Option.mem_toList.mp hpath)
  · exact fun l hl => fits_of_mem_singles hl

/-- **The settings that layers of options come to.** A setting is what the option says; if none
does, what the named file gives; if that does not, what the local file gives; and if that does not,
the default. -/
theorem resolved_layers (o : Options) (t : FileTree) (k : Key) :
    resolved t o.layers k =
      (((o.given? k).or (o.config.bind fun path => (Layer.file path).gives? t k)).or
        ((Layer.localFile ".").gives? t k)).getD (Settings.builtin.get k) := by
  have hsetting : ∀ l ∈ o.singles, l.isSetting = true := fun l hl => isSetting_of_mem_singles hl
  have hfile : ∀ l ∈ o.config.toList.map Layer.file, l.isSetting = false := fun l hl => by
    obtain ⟨path, -, rfl⟩ := List.mem_map.mp hl
    rfl
  have hsingles : o.layers.filter (·.isSetting) = o.singles := by
    rw [layers_eq, List.filter_cons_of_neg (by decide), List.filter_append,
      List.filter_eq_nil_iff.mpr fun l hl => by rw [hfile l hl]; decide,
      List.filter_eq_self.mpr hsetting, List.nil_append]
  have hfiles : o.layers.filter (!·.isSetting) = .localFile "." :: o.config.toList.map .file := by
    rw [layers_eq, List.filter_cons_of_pos rfl, List.filter_append,
      List.filter_eq_self.mpr fun l hl => by rw [hfile l hl]; rfl,
      List.filter_eq_nil_iff.mpr fun l hl => by rw [hsetting l hl]; decide, List.append_nil]
  have hlast : Layer.last? t k (.localFile "." :: o.config.toList.map .file) =
      (o.config.bind fun path => (Layer.file path).gives? t k).or
        ((Layer.localFile ".").gives? t k) := by
    rw [Layer.last?]
    cases o.config with
    | none => cases h : (Layer.localFile ".").gives? t k <;> simp [h]
    | some path =>
      cases h : (Layer.localFile ".").gives? t k <;>
        cases h' : (Layer.file path).gives? t k <;> simp [h, h']
  rw [resolved, hsingles, hfiles, hlast, Layer.last?, filterMap_singles, Option.or_assoc]
  cases o.given? k <;> rfl

end CommandLine.Options

end GlyphRebase
