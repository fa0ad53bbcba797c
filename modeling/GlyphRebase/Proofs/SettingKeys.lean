import GlyphRebase.Config.Settings

/-!
# The keys of the settings

`Key` lists the single settings, each with the section and the field that it stands in and with the
type of its value. A `Choice` gives a key a scalar of its own type. Of several choices for a key the
last one counts, and if there is none, the built-in default does (`settled`).

A configuration shows choices if it holds, for every key, a scalar that reads as what they settle
(`Value.Shows`). Then `Settings.ofValue` gives just these settings (`Value.Shows.ofValue`).
-/

namespace GlyphRebase.Config

/-- A single setting. -/
inductive Key where
  | input
  | output
  | atomic
  | special
  | offset
  | boundary
  | negative
  | progress
  | summary
  deriving DecidableEq, Repr

/-- The sections of the settings. -/
def sections : List Schema := [.io, .remap, .report]

/-- The one of several choices that a text names, in whatever case. -/
def named? {α : Type} (choices : List (String × α)) (text : String) : Option α :=
  (choices.find? fun c => c.1 == Text.lowercase text).map (·.2)

theorem toChoice_of_named? {α : Type} {type text : String} {choices : List (String × α)} {a : α}
    (h : named? choices text = some a) (origin : Option String) :
    toChoice type choices (.scalar (.text text) origin) = .ok a := by
  obtain ⟨c, hfind, rfl⟩ := Option.map_eq_some_iff.mp h
  simp only [toChoice, hfind]

namespace Key

/-- All single settings. -/
def all : List Key :=
  [input, output, atomic, special, offset, boundary, negative, progress, summary]

/-- The section that the setting stands in. -/
def schema : Key → Schema
  | input | output | atomic => .io
  | special | offset | boundary | negative => .remap
  | progress | summary => .report

/-- The position of the setting in its section. -/
def position : Key → Nat
  | input | special | progress => 0
  | output | offset | summary => 1
  | atomic | boundary => 2
  | negative => 3

/-- The name of the setting in its section. -/
def field (k : Key) : String := k.schema.fields.getD k.position ""

/-- The name of the setting, with the section in front. -/
def dotted (k : Key) : String := k.schema.key ++ "." ++ k.field

/-- The path that the dotted name is. -/
def path (k : Key) : KeyPath := ⟨k.schema.key, [.key k.field]⟩

/-- What the setting may be. -/
def Domain : Key → Type
  | input | output => String
  | atomic | progress => Bool
  | special | offset | boundary => Int64
  | negative => NegativePolicy
  | summary => SummaryFormat

instance : (k : Key) → DecidableEq k.Domain
  | input | output => inferInstanceAs (DecidableEq String)
  | atomic | progress => inferInstanceAs (DecidableEq Bool)
  | special | offset | boundary => inferInstanceAs (DecidableEq Int64)
  | negative => inferInstanceAs (DecidableEq NegativePolicy)
  | summary => inferInstanceAs (DecidableEq SummaryFormat)

/-- What a scalar of the setting's own type makes it. -/
def read? : (k : Key) → Scalar → Option k.Domain
  | input, .text s => some s
  | output, .text s => some s
  | atomic, .boolean b => some b
  | special, .integer n => some n
  | offset, .integer n => some n
  | boundary, .integer n => some n
  | negative, .text s => named? [("allow", NegativePolicy.allow), ("reject", .reject)] s
  | progress, .boolean b => some b
  | summary, .text s => named? [("text", SummaryFormat.text), ("json", .json)] s
  | _, _ => none

/-- How the value of the setting is read from a configuration. -/
def decode : (k : Key) → String → Value → Except Fault k.Domain
  | input | output => toText
  | atomic | progress => toBool
  | special | offset | boundary => toInt
  | negative => fun _ => toPolicy
  | summary => fun _ => toSummaryFormat

theorem mem_sections (k : Key) : k.schema ∈ sections := by cases k <;> decide

theorem eq_of_field : ∀ k k' : Key, k.schema = k'.schema → k.field = k'.field → k = k' := by
  intro k k'
  cases k <;> cases k' <;> decide

theorem lowercase_field (k : Key) : Text.lowercase k.field = k.field := by
  cases k <;> decide +kernel

theorem parse_dotted (k : Key) : KeyPath.parse k.dotted = some k.path := by
  cases k <;> decide +kernel

/-- A scalar of the setting's own type is read as what it is. -/
theorem decode_scalar {k : Key} {s : Scalar} {x : k.Domain} (h : k.read? s = some x) (name : String)
    (origin : Option String) : k.decode name (.scalar s origin) = .ok x := by
  cases k with
  | negative | summary =>
    cases s with
    | text word => exact toChoice_of_named? h origin
    | _ => cases h
  | _ =>
    cases s <;> cases h
    rfl

end Key

theorem eq_of_section_key : ∀ S ∈ sections, ∀ S' ∈ sections, S.key = S'.key → S = S' := by decide

theorem lowercase_section_key : ∀ S ∈ sections, Text.lowercase S.key = S.key := by decide +kernel

theorem parse_section_key : ∀ S ∈ sections, KeyPath.parse S.key = some ⟨S.key, []⟩ := by
  decide +kernel

/-! ### Settings by key -/

namespace Settings

/-- The value of a setting. -/
def get (s : Settings) : (k : Key) → k.Domain
  | .input => s.input
  | .output => s.output
  | .atomic => s.atomic
  | .special => s.rules.special
  | .offset => s.rules.offset
  | .boundary => s.rules.boundary
  | .negative => s.rules.negative
  | .progress => s.progress
  | .summary => s.summary

/-- The settings with given values. -/
def ofKeys (f : (k : Key) → k.Domain) : Settings where
  input := f .input
  output := f .output
  atomic := f .atomic
  rules := ⟨f .special, f .offset, f .boundary, f .negative⟩
  progress := f .progress
  summary := f .summary

/-- The built-in defaults. -/
def builtin : Settings := ⟨"input.txt", "output.txt", false, .standard, true, .text⟩

@[simp] theorem get_ofKeys (f : (k : Key) → k.Domain) (k : Key) : (ofKeys f).get k = f k := by
  cases k <;> rfl

theorem ofKeys_get (s : Settings) : ofKeys s.get = s := rfl

/-- Settings are the same if all single settings are. -/
theorem eq_of_get {s s' : Settings} (h : ∀ k, s.get k = s'.get k) : s = s' := by
  rw [← s.ofKeys_get, ← s'.ofKeys_get, funext h]

end Settings

/-! ### Choices -/

/-- A value for a setting. -/
structure Choice where
  key : Key
  scalar : Scalar
  /-- The scalar is of the setting's own type. -/
  fits : (key.read? scalar).isSome

/-- The value that the choice gives a setting, if it is for that one. -/
def Choice.value? (c : Choice) (k : Key) : Option k.Domain :=
  if c.key = k then k.read? c.scalar else none

/-- The last value that choices give a setting. -/
def chosen? (cs : List Choice) (k : Key) : Option k.Domain := (cs.filterMap (·.value? k)).getLast?

/-- What a setting is after choices. -/
def settled (cs : List Choice) (k : Key) : k.Domain := (chosen? cs k).getD (Settings.builtin.get k)

theorem chosen?_singleton (c : Choice) (k : Key) : chosen? [c] k = c.value? k := by
  rw [chosen?]
  cases h : c.value? k <;> simp [h]

theorem chosen?_append (cs ds : List Choice) (k : Key) :
    chosen? (cs ++ ds) k = (chosen? ds k).or (chosen? cs k) := by
  rw [chosen?, List.filterMap_append, List.getLast?_append]
  rfl

theorem chosen?_of_forall_ne {cs : List Choice} {k : Key} (h : ∀ c ∈ cs, c.key ≠ k) :
    chosen? cs k = none := by
  have hnone : cs.filterMap (·.value? k) = [] :=
    List.filterMap_eq_nil_iff.mpr fun c hc => if_neg (h c hc)
  rw [chosen?, hnone]
  rfl

theorem settled_append_of_forall_ne (cs : List Choice) {ds : List Choice} {k : Key}
    (h : ∀ d ∈ ds, d.key ≠ k) : settled (cs ++ ds) k = settled cs k := by
  rw [settled, chosen?_append, chosen?_of_forall_ne h, Option.none_or, settled]

theorem read?_settled_concat (cs : List Choice) (c : Choice) :
    c.key.read? c.scalar = some (settled (cs ++ [c]) c.key) := by
  obtain ⟨x, hx⟩ := Option.isSome_iff_exists.mp c.fits
  have hlast : chosen? [c] c.key = some x := by
    rw [chosen?_singleton, Choice.value?, if_pos rfl, hx]
  rw [settled, chosen?_append, hlast, Option.some_or, Option.getD_some, hx]

/-! ### Tables of settings -/

namespace Members

theorem get?_put_self (ms : Members) (key : String) (v : Value) :
    (ms.put key v).get? key = some v := by
  by_cases h : ms.any (·.1 == key) = true
  · have hsame : (fun m : String × Value => m.1 == key) ∘
        (fun m => if m.1 = key then (key, v) else m) = fun m => m.1 == key := by
      funext m
      by_cases hm : m.1 = key <;> simp [hm]
    obtain ⟨m, hfind⟩ := Option.isSome_iff_exists.mp (List.find?_isSome.mpr (List.any_eq_true.mp h))
    have hm : m.1 = key := by simpa using List.find?_some hfind
    rw [get?, put, if_pos h, List.find?_map, hsame, hfind, Option.map_some, Option.map_some,
      if_pos hm]
  · have hnone : ms.find? (·.1 == key) = none :=
      List.find?_eq_none.mpr fun m hm hkey => h (List.any_eq_true.mpr ⟨m, hm, hkey⟩)
    rw [get?, put, if_neg h, List.find?_append, hnone]
    simp

theorem get?_put_ne (ms : Members) {key key' : String} (v : Value) (hne : key' ≠ key) :
    (ms.put key v).get? key' = ms.get? key' := by
  by_cases h : ms.any (·.1 == key) = true
  · have hsame : (fun m : String × Value => m.1 == key') ∘
        (fun m => if m.1 = key then (key, v) else m) = fun m => m.1 == key' := by
      funext m
      by_cases hm : m.1 = key <;> simp [hm]
    rw [get?, put, if_pos h, List.find?_map, hsame, get?]
    cases hfind : List.find? (fun m : String × Value => m.1 == key') ms with
    | none => rfl
    | some m =>
      have hm : m.1 = key' := by simpa using List.find?_some hfind
      rw [Option.map_some, if_neg (hm ▸ hne)]
  · rw [get?, put, if_neg h, List.find?_append, get?]
    simp [Ne.symm hne]

/-- The settings of a section are there, and are what choices settle. -/
def Shows (ms : Members) (S : Schema) (cs : List Choice) : Prop :=
  ∀ k : Key, k.schema = S →
    ∃ s origin, ms.get? k.field = some (.scalar s origin) ∧ k.read? s = some (settled cs k)

variable {ms : Members} {S : Schema} {cs : List Choice}

/-- Choices for other sections do not matter. -/
theorem Shows.append_others (h : ms.Shows S cs) {ds : List Choice}
    (hds : ∀ d ∈ ds, d.key.schema ≠ S) : ms.Shows S (cs ++ ds) := by
  intro k hk
  rw [settled_append_of_forall_ne cs fun d hd hkey => hds d hd (hkey ▸ hk)]
  exact h k hk

/-- Putting the scalar of a choice into its field is making that choice. -/
theorem Shows.put (h : ms.Shows S cs) {c : Choice} (hc : c.key.schema = S)
    (origin : Option String) :
    Shows (ms.put c.key.field (.scalar c.scalar origin)) S (cs ++ [c]) := by
  intro k hk
  by_cases hkey : k = c.key
  · rw [hkey, get?_put_self]
    exact ⟨_, _, rfl, read?_settled_concat cs c⟩
  · have hfield : k.field ≠ c.key.field := fun hfield =>
      hkey (Key.eq_of_field k c.key (hk.trans hc.symm) hfield)
    have hothers : ∀ d ∈ [c], d.key ≠ k := fun d hd hd' =>
      hkey ((List.mem_singleton.mp hd ▸ hd').symm)
    rw [get?_put_ne ms _ hfield, settled_append_of_forall_ne cs hothers]
    exact h k hk

end Members

/-! ### Configurations -/

namespace Value

/-- Every section is there, as a table whose settings are what choices settle. -/
def Shows (v : Value) (cs : List Choice) : Prop :=
  ∀ S ∈ sections, ∃ ms origin, v.asTable.1.get? S.key = some (.table ms origin) ∧
      Members.Shows ms S cs

variable {v : Value} {cs : List Choice}

/-- A change to one section, which makes choices there, makes them for the configuration. -/
theorem Shows.changeMember (h : v.Shows cs) {S : Schema} (hS : S ∈ sections) {ds : List Choice}
    (hds : ∀ d ∈ ds, d.key.schema = S) {f : Option Value → Value}
    (hf : ∀ ms origin, Members.Shows ms S cs → ∃ ms' origin',
      f (some (.table ms origin)) = .table ms' origin' ∧ Members.Shows ms' S (cs ++ ds)) :
    (v.changeMember S.key f).Shows (cs ++ ds) := by
  intro S' hS'
  obtain ⟨ms, origin, hget, hshows⟩ := h S' hS'
  rw [Value.changeMember, lowercase_section_key S hS]
  by_cases hsame : S' = S
  · subst hsame
    obtain ⟨ms', origin', hnew, hshows'⟩ := hf ms origin hshows
    exact ⟨ms', origin', by rw [← hnew, ← hget]; exact Members.get?_put_self .., hshows'⟩
  · have hkey : S'.key ≠ S.key := fun hkey => hsame (eq_of_section_key S' hS' S hS hkey)
    refine ⟨ms, origin, (Members.get?_put_ne _ _ hkey).trans hget, hshows.append_others ?_⟩
    exact fun d hd hd' => hsame (hd'.symm.trans (hds d hd))

/-- Setting a field of a section to the scalar of a choice is making that choice. -/
theorem set_field_shows {ms : Members} {S : Schema} (h : ms.Shows S cs) {c : Choice}
    (hc : c.key.schema = S) (origin origin' : Option String) :
    ∃ ms', Value.set (.table ms origin) c.key.field (.scalar c.scalar origin') =
        .table ms' origin ∧ Members.Shows ms' S (cs ++ [c]) := by
  refine ⟨Members.put ms c.key.field (.scalar c.scalar origin'), ?_, h.put hc origin'⟩
  rw [Value.set, Value.changeMember, Key.lowercase_field]
  rfl

/-- Assigning the scalar of a choice to its path is making that choice. -/
theorem Shows.assign (h : v.Shows cs) (c : Choice) :
    (c.key.path.assign (.scalar c.scalar none) v).Shows (cs ++ [c]) := by
  rw [KeyPath.assign, Key.path, KeyPath.assignFrom]
  refine h.changeMember c.key.mem_sections (fun d hd => List.mem_singleton.mp hd ▸ rfl) ?_
  intro ms origin hshows
  rw [Option.getD_some, KeyPath.assignFrom]
  obtain ⟨ms', hset, hshows'⟩ := set_field_shows hshows rfl origin none
  exact ⟨ms', origin, hset, hshows'⟩

/-- The defaults are what no choice settles. -/
theorem defaults_shows : defaults.Shows [] := by
  intro S hS
  simp only [sections, List.mem_cons, List.not_mem_nil, or_false] at hS
  obtain rfl | rfl | rfl := hS
  all_goals
    refine ⟨_, _, rfl, fun k hk => ?_⟩
    cases k
    all_goals
      first
      | exact absurd hk (by decide)
      | exact ⟨_, _, rfl, by decide +kernel⟩

/-- A setting is read from its section as what it is settled to. -/
theorem get?_of_shows {ms : Members} {k : Key} (h : Members.Shows ms k.schema cs)
    (origin : Option String) :
    k.schema.get? (.table ms origin) k.position k.decode = .ok (some (settled cs k)) := by
  obtain ⟨s, origin', hget, hread⟩ := h k rfl
  rw [Schema.get?]
  show Option.mapM _ (Members.get? ms k.field) = _
  rw [hget, Option.mapM_some, Key.decode_scalar hread]
  rfl

/-- **The settings of a configuration that shows choices are what these settle.** -/
theorem Shows.ofValue (h : v.Shows cs) : Settings.ofValue v = .ok (.ofKeys (settled cs)) := by
  obtain ⟨io, oio, hio, hshowsIo⟩ := h .io (by decide)
  obtain ⟨remap, oremap, hremap, hshowsRemap⟩ := h .remap (by decide)
  obtain ⟨report, oreport, hreport, hshowsReport⟩ := h .report (by decide)
  have hinput : Schema.io.get? (.table io oio) 0 toText = .ok (some (settled cs .input)) :=
    get?_of_shows (k := .input) hshowsIo oio
  have houtput : Schema.io.get? (.table io oio) 1 toText = .ok (some (settled cs .output)) :=
    get?_of_shows (k := .output) hshowsIo oio
  have hatomic : Schema.io.get? (.table io oio) 2 toBool = .ok (some (settled cs .atomic)) :=
    get?_of_shows (k := .atomic) hshowsIo oio
  have hspecial : Schema.remap.get? (.table remap oremap) 0 toInt =
      .ok (some (settled cs .special)) := get?_of_shows (k := .special) hshowsRemap oremap
  have hoffset : Schema.remap.get? (.table remap oremap) 1 toInt =
      .ok (some (settled cs .offset)) := get?_of_shows (k := .offset) hshowsRemap oremap
  have hboundary : Schema.remap.get? (.table remap oremap) 2 toInt =
      .ok (some (settled cs .boundary)) := get?_of_shows (k := .boundary) hshowsRemap oremap
  have hnegative : (Schema.remap.get? (.table remap oremap) 3 fun _ => toPolicy) =
      .ok (some (settled cs .negative)) := get?_of_shows (k := .negative) hshowsRemap oremap
  have hprogress : Schema.report.get? (.table report oreport) 0 toBool =
      .ok (some (settled cs .progress)) := get?_of_shows (k := .progress) hshowsReport oreport
  have hsummary : (Schema.report.get? (.table report oreport) 1 fun _ => toSummaryFormat) =
      .ok (some (settled cs .summary)) := get?_of_shows (k := .summary) hshowsReport oreport
  simp only [Settings.ofValue, Schema.section?, hio, hremap, hreport, hinput, houtput, hatomic,
    toRules, hspecial, hoffset, hboundary, hnegative, hprogress, hsummary, Schema.require, bind,
    Except.bind]
  rfl

end Value

end GlyphRebase.Config
