import GlyphRebase.CommandLine.Options
import GlyphRebase.Proofs.TreeOperations

/-!
# What arguments say

Arguments say things one after the other (`Item`): a flag with its value, a switch, or the name of
a file. `Spells` lists the ways in which an argument, or two of them, may say one thing or more. If
arguments can be read, they spell a list of items, and the options hold just what these items say:
each flag at most once, and the first two names as the input and the output
(`CommandLine.Options.read_spells`).
-/

namespace GlyphRebase.CommandLine

/-- A thing that arguments say. -/
inductive Item where
  /-- A flag has a value. -/
  | value (flag : ValueFlag) (text : String)
  /-- A switch is turned. -/
  | switch (s : Switch)
  /-- A file is named. -/
  | name (text : String)
  deriving DecidableEq, Repr

namespace Item

/-- The value of a flag. -/
def text? (flag : ValueFlag) : Item → Option String
  | value f text => if f = flag then some text else none
  | _ => none

/-- The name of a file. -/
def name? : Item → Option String
  | name text => some text
  | _ => none

end Item

/-! ### Spellings -/

/-- The argument is no flag: nothing stands behind a hyphen at its front. -/
def IsPlain (argument : String) : Prop := ∀ c cs, argument.toList ≠ '-' :: c :: cs

/-- The argument may be the value of a flag that stands before it: a plain one, or a negative number
if the flag takes numbers. -/
def IsValueOf (flag : ValueFlag) (argument : String) : Prop :=
  IsPlain argument ∨
    flag.isNumeric = true ∧ ∃ cs, argument.toList = '-' :: cs ∧ Reading.isNumber cs = true

/-- Letters behind a hyphen turn switches; the last may be that of a flag, whose value follows at
once, perhaps behind an equals sign, or is the next argument. -/
inductive SpellsLetters : List Char → List Item → Option ValueFlag → Prop
  | done : SpellsLetters [] [] none
  | switch {c cs s items flag?} (h : Flag.ofLetter? c = some (.switch s)) :
    SpellsLetters cs items flag? → SpellsLetters (c :: cs) (.switch s :: items) flag?
  | apart {c f} (h : Flag.ofLetter? c = some (.value f)) : SpellsLetters [c] [] (some f)
  | attached {c f cs} (h : Flag.ofLetter? c = some (.value f)) (hne : cs ≠ [])
      (hcs : cs.head? ≠ some '=') : SpellsLetters (c :: cs) [.value f (String.ofList cs)] none
  | equals {c f cs} (h : Flag.ofLetter? c = some (.value f)) :
    SpellsLetters (c :: '=' :: cs) [.value f (String.ofList cs)] none

/-- Arguments say items in order; the first of them may be the value of a flag before them. -/
inductive Spells : Option ValueFlag → List String → List Item → Prop
  | nil : Spells none [] []
  /-- After two hyphens there are names alone. -/
  | names (names : List String) : Spells none ("--" :: names) (names.map .name)
  | name {n rest items} (h : IsPlain n) :
    Spells none rest items → Spells none (n :: rest) (.name n :: items)
  | value {f v rest items} (h : IsValueOf f v) :
    Spells none rest items → Spells (some f) (v :: rest) (.value f v :: items)
  /-- The long name of a switch. -/
  | switch {s rest items} :
    Spells none rest items → Spells none (("--" ++ s.name) :: rest) (.switch s :: items)
  /-- The long name of a flag, whose value is the next argument. -/
  | apart {f rest items} :
    Spells (some f) rest items → Spells none (("--" ++ f.name) :: rest) items
  /-- The long name of a flag, with the value behind an equals sign. -/
  | attached {f v rest items} :
    Spells none rest items →
      Spells none (("--" ++ f.name ++ "=" ++ v) :: rest) (.value f v :: items)
  | letters {cs said flag? rest items} (hne : cs ≠ []) (hcs : cs.head? ≠ some '-')
      (h : SpellsLetters cs said flag?) :
    Spells flag? rest items → Spells none (String.ofList ('-' :: cs) :: rest) (said ++ items)

/-! ### What options hold -/

/-- The options hold what items say, of which none says the same as another. -/
structure Options.Holds (o : Options) (items : List Item) : Prop where
  config : items.filterMap (Item.text? .config) = o.config.toList
  offset : (items.filterMap (Item.text? .offset)).map Number.readLiteral =
    o.offset.toList.map .ok
  special : (items.filterMap (Item.text? .specialIndex)).map Number.readLiteral =
    o.specialIndex.toList.map .ok
  boundary : (items.filterMap (Item.text? .wrapBoundary)).map Number.readLiteral =
    o.wrapBoundary.toList.map .ok
  summary : items.filterMap (Item.text? .summary) = o.summary.toList.map (·.name)
  rejectNegative : items.count (.switch .rejectNegative) = o.rejectNegative.toNat
  atomic : items.count (.switch .atomic) = o.atomic.toNat
  quiet : items.count (.switch .quiet) = o.quiet.toNat
  names : items.filterMap Item.name? = o.input.toList ++ o.output.toList

namespace Options

variable {o o' : Options} {items : List Item}

theorem holds_nil : ({} : Options).Holds [] := ⟨rfl, rfl, rfl, rfl, rfl, rfl, rfl, rfl, rfl⟩

theorem number_eq_ok {flag : ValueFlag} {v : String} {n : Int64} (h : number flag v = .ok n) :
    Number.readLiteral v = .ok n := by
  rw [number] at h
  cases hread : Number.readLiteral v with
  | ok m => rw [hread] at h; cases h; rfl
  | error _ => rw [hread] at h; cases h

theorem summaryFormat_eq_ok {v : String} {format : Config.SummaryFormat}
    (h : summaryFormat v = .ok format) : v = format.name := by
  rw [summaryFormat] at h
  split at h
  · next hv => cases h; exact hv
  · split at h
    · next hv => cases h; exact hv
    · split at h <;> cases h

theorem Holds.give (h : o.Holds items) {flag : ValueFlag} {v : String}
    (hgive : o.give flag v = .ok o') : o'.Holds (items ++ [.value flag v]) := by
  obtain ⟨hconfig, hoffset, hspecial, hboundary, hsummary, hreject, hatomic, hquiet, hnames⟩ := h
  unfold Options.give at hgive
  by_cases hnot : o.has (.value flag) = true
  · rw [if_pos hnot] at hgive
    cases hgive
  rw [if_neg hnot] at hgive
  -- A flag that is given twice is refused, so this one has had no value before.
  cases flag with
  | config =>
    simp only [has, Option.not_isSome_iff_eq_none] at hnot
    cases hgive
    constructor <;> simp [Item.text?, Item.name?, *]
  | offset | specialIndex | wrapBoundary =>
    simp only [has, Option.not_isSome_iff_eq_none] at hnot
    obtain ⟨n, hn, hgive⟩ := bind_eq_ok_iff.mp hgive
    have hread := number_eq_ok hn
    cases hgive
    constructor <;> simp [Item.text?, Item.name?, *]
  | summary =>
    simp only [has, Option.not_isSome_iff_eq_none] at hnot
    obtain ⟨format, hformat, hgive⟩ := bind_eq_ok_iff.mp hgive
    have hv := summaryFormat_eq_ok hformat
    cases hgive
    constructor <;> simp [Item.text?, Item.name?, *]

/-- A flag with a value says nothing of the output. -/
theorem output_of_give {flag : ValueFlag} {v : String} (h : o.give flag v = .ok o') :
    o'.output = o.output := by
  unfold Options.give at h
  split at h
  · cases h
  · cases flag with
    | config =>
      cases h
      rfl
    | offset | specialIndex | wrapBoundary | summary =>
      obtain ⟨_, -, hmade⟩ := bind_eq_ok_iff.mp h
      cases hmade
      rfl

theorem Holds.turn (h : o.Holds items) {s : Switch} (hturn : o.turn s = .ok o') :
    o'.Holds (items ++ [.switch s]) := by
  obtain ⟨hconfig, hoffset, hspecial, hboundary, hsummary, hreject, hatomic, hquiet, hnames⟩ := h
  unfold Options.turn at hturn
  by_cases hnot : o.has (.switch s) = true
  · rw [if_pos hnot] at hturn
    cases hturn
  rw [if_neg hnot] at hturn
  cases s with
  | rejectNegative | atomic | quiet =>
    simp only [has, Bool.not_eq_true] at hnot
    cases hturn
    constructor <;> simp [Item.text?, Item.name?, *]
  | help | version => cases hturn

/-- The first name is that of the input, the second that of the output. -/
theorem Holds.name (h : o.Holds items) (hroom : o.output = none) (n : String) :
    Holds (if o.input.isNone then { o with input := some n } else { o with output := some n })
      (items ++ [.name n]) := by
  obtain ⟨hconfig, hoffset, hspecial, hboundary, hsummary, hreject, hatomic, hquiet, hnames⟩ := h
  cases hinput : o.input with
  | none => constructor <;> simp [Item.text?, Item.name?, *]
  | some i => constructor <;> simp [Item.text?, Item.name?, *]

end Options

/-! ### Reading -/

namespace Reading

/-- What is read so far says items: the options hold them, but for a value that is not looked at
yet. -/
def Says (r : Reading) (items : List Item) : Prop :=
  match r.pending with
  | some (f, some text) => ∃ before, items = before ++ [.value f text] ∧ r.options.Holds before
  | _ => r.options.Holds items

variable {r r' : Reading} {o : Options} {items : List Item}

/-- A flag that awaits its value settles for nothing. -/
theorem awaiting?_of_settle (h : r.settle = .ok o) : r.awaiting? = none := by
  obtain ⟨options, pending⟩ := r
  match pending with
  | none | some (_, some _) => rfl
  | some (f, none) => cases h

theorem Says.settle (h : r.Says items) (hsettle : r.settle = .ok o) : o.Holds items := by
  obtain ⟨options, pending⟩ := r
  match pending with
  | none =>
    cases hsettle
    exact h
  | some (f, none) => cases hsettle
  | some (f, some text) =>
    obtain ⟨before, rfl, hbefore⟩ := h
    exact hbefore.give hsettle

theorem output_of_settle (h : r.settle = .ok o) : o.output = r.options.output := by
  obtain ⟨options, pending⟩ := r
  match pending with
  | none =>
    cases h
    rfl
  | some (f, none) => cases h
  | some (f, some text) => exact Options.output_of_give h

theorem Says.takeSwitch (h : r.Says items) {s : Switch} {attached : Option String}
    (htake : r.takeFlag (.switch s) attached = .ok r') :
    attached = none ∧ r.awaiting? = none ∧ r'.awaiting? = none ∧
      r'.Says (items ++ [.switch s]) := by
  cases attached with
  | some value => cases htake
  | none =>
    obtain ⟨o, hsettle, hrest⟩ := bind_eq_ok_iff.mp htake
    obtain ⟨o', hturn, hmade⟩ := bind_eq_ok_iff.mp hrest
    cases hmade
    exact ⟨rfl, awaiting?_of_settle hsettle, rfl, (h.settle hsettle).turn hturn⟩

theorem Says.takeAttached (h : r.Says items) {f : ValueFlag} {text : String}
    (htake : r.takeFlag (.value f) (some text) = .ok r') :
    r.awaiting? = none ∧ r'.awaiting? = none ∧ r'.Says (items ++ [.value f text]) := by
  obtain ⟨o, hsettle, hrest⟩ := bind_eq_ok_iff.mp htake
  obtain ⟨o', hgive, hmade⟩ := bind_eq_ok_iff.mp hrest
  cases hmade
  exact ⟨awaiting?_of_settle hsettle, rfl, (h.settle hsettle).give hgive⟩

theorem Says.takeApart (h : r.Says items) {f : ValueFlag}
    (htake : r.takeFlag (.value f) none = .ok r') :
    r.awaiting? = none ∧ r'.awaiting? = some f ∧ r'.Says items := by
  obtain ⟨o, hsettle, hmade⟩ := bind_eq_ok_iff.mp htake
  cases hmade
  exact ⟨awaiting?_of_settle hsettle, rfl, h.settle hsettle⟩

theorem Says.takeName (h : r.Says items) {n : String} (htake : r.takeName n = .ok r') :
    r.awaiting? = none ∧ r'.awaiting? = none ∧ r'.Says (items ++ [.name n]) := by
  rw [Reading.takeName] at htake
  by_cases hfull : r.options.output.isSome = true
  · rw [if_pos hfull] at htake
    cases htake
  rw [if_neg hfull] at htake
  obtain ⟨o, hsettle, hmade⟩ := bind_eq_ok_iff.mp htake
  have hnone := awaiting?_of_settle hsettle
  have hroom : o.output = none := by
    rw [output_of_settle hsettle]
    exact Option.not_isSome_iff_eq_none.mp hfull
  have hnamed := (h.settle hsettle).name hroom n
  by_cases hinput : o.input.isNone = true
  · rw [if_pos hinput] at hnamed hmade
    cases hmade
    exact ⟨hnone, rfl, hnamed⟩
  · rw [if_neg hinput] at hnamed hmade
    cases hmade
    exact ⟨hnone, rfl, hnamed⟩

theorem Says.takeNames (h : r.Says items) {names : List String}
    (htake : names.foldlM Reading.takeName r = .ok r') (hdone : r'.awaiting? = none) :
    r.awaiting? = none ∧ r'.Says (items ++ names.map .name) := by
  induction names generalizing r items with
  | nil =>
    cases htake
    exact ⟨hdone, by rwa [List.map_nil, List.append_nil]⟩
  | cons n names ih =>
    rw [List.foldlM_cons] at htake
    obtain ⟨now, hnow, hrest⟩ := bind_eq_ok_iff.mp htake
    obtain ⟨hnone, -, hsays⟩ := h.takeName hnow
    obtain ⟨-, hall⟩ := ih hsays hrest
    exact ⟨hnone, by rwa [List.map_cons, List.append_cons]⟩

/-- Letters are read as they are spelled. -/
theorem Says.takeLetters (h : r.Says items) {cs : List Char}
    (htake : r.takeLetters cs = .ok r') (hne : cs ≠ []) :
    r.awaiting? = none ∧ ∃ said, SpellsLetters cs said r'.awaiting? ∧ r'.Says (items ++ said) := by
  induction cs generalizing r items with
  | nil => exact absurd rfl hne
  | cons c cs ih =>
    unfold Reading.takeLetters at htake
    cases hletter : Flag.ofLetter? c with
    | none => simp only [hletter] at htake; cases htake
    | some flag =>
      cases flag with
      | switch s =>
        simp only [hletter] at htake
        obtain ⟨now, hnow, hrest⟩ := bind_eq_ok_iff.mp htake
        obtain ⟨-, hnone, hnone', hsays⟩ := h.takeSwitch hnow
        refine ⟨hnone, ?_⟩
        cases cs with
        | nil =>
          cases hrest
          exact ⟨[.switch s], .switch hletter (by rw [hnone']; exact .done), hsays⟩
        | cons c' cs' =>
          obtain ⟨-, said, hsaid, hall⟩ := ih hsays hrest nofun
          exact ⟨.switch s :: said, .switch hletter hsaid, by rwa [List.append_cons]⟩
      | value f =>
        simp only [hletter] at htake
        match cs with
        | [] =>
          obtain ⟨hnone, hawaits, hsays⟩ := h.takeApart htake
          exact ⟨hnone, [], by rw [hawaits]; exact .apart hletter, by rwa [List.append_nil]⟩
        | c' :: cs' =>
          by_cases hequals : c' = '='
          · subst hequals
            obtain ⟨hnone, hnone', hsays⟩ := h.takeAttached htake
            exact ⟨hnone, _, by rw [hnone']; exact .equals hletter, hsays⟩
          · split at htake
            · next hnil => cases hnil
            · next heq =>
              cases heq
              exact absurd rfl hequals
            · obtain ⟨hnone, hnone', hsays⟩ := h.takeAttached htake
              refine ⟨hnone, _, ?_, hsays⟩
              rw [hnone']
              exact .attached hletter nofun fun hhead => hequals (Option.some.inj hhead)

theorem eq_of_ofName? {name : String} {flag : Flag} (h : Flag.ofName? name = some flag) :
    flag.name = name := by simpa using List.find?_some h

/-- A long name is read as it is spelled. -/
theorem Says.takeLong (h : r.Says items) {cs : List Char} (htake : r.takeLong cs = .ok r') :
    r.awaiting? = none ∧ ∃ said, r'.Says (items ++ said) ∧ ∀ rest more,
      Spells r'.awaiting? rest more →
        Spells none (String.ofList ('-' :: '-' :: cs) :: rest) (said ++ more) := by
  have hcut : cs.takeWhile (· ≠ '=') ++ cs.dropWhile (· ≠ '=') = cs :=
    List.takeWhile_append_dropWhile
  have hhead : ∀ c value, cs.dropWhile (· ≠ '=') = c :: value → c = '=' := fun c value hvalue => by
    have hstop := List.head?_dropWhile_not (· ≠ '=') cs
    rw [hvalue] at hstop
    simpa using hstop
  rw [Reading.takeLong] at htake
  generalize cs.takeWhile (· ≠ '=') = name at hcut htake
  generalize cs.dropWhile (· ≠ '=') = tail at hcut hhead htake
  subst hcut
  cases hflag : Flag.ofName? (String.ofList name) with
  | none =>
    simp only [hflag] at htake
    cases htake
  | some flag =>
    have hname := eq_of_ofName? hflag
    simp only [hflag] at htake
    cases tail with
    | nil =>
      have hargument : String.ofList ('-' :: '-' :: (name ++ [])) = "--" ++ flag.name := by
        rw [hname, ← String.toList_inj]
        simp
      rw [hargument]
      cases flag with
      | switch s =>
        obtain ⟨-, hnone, hnone', hsays⟩ := h.takeSwitch htake
        exact ⟨hnone, _, hsays, fun rest more hmore => .switch (hnone' ▸ hmore)⟩
      | value f =>
        obtain ⟨hnone, hawaits, hsays⟩ := h.takeApart htake
        refine ⟨hnone, [], by rwa [List.append_nil], fun rest more hmore => ?_⟩
        rw [hawaits] at hmore
        exact .apart hmore
    | cons c value =>
      have hargument : String.ofList ('-' :: '-' :: (name ++ c :: value)) =
          "--" ++ flag.name ++ "=" ++ String.ofList value := by
        rw [hname, hhead c value rfl, ← String.toList_inj]
        simp
      rw [hargument]
      cases flag with
      | switch s =>
        obtain ⟨hnone, -⟩ := h.takeSwitch htake
        cases hnone
      | value f =>
        obtain ⟨hnone, hnone', hsays⟩ := h.takeAttached htake
        exact ⟨hnone, _, hsays, fun rest more hmore => .attached (hnone' ▸ hmore)⟩

/-- An argument that is no flag is the value that is awaited, or a name. -/
theorem Says.takePlain (h : r.Says items) {argument : String}
    (htake : r.takePlain argument = .ok r')
    (hplain : ∀ f, r.awaiting? = some f → IsValueOf f argument)
    (hplain' : r.awaiting? = none → IsPlain argument) :
    ∃ said, r'.Says (items ++ said) ∧ ∀ rest more,
      Spells r'.awaiting? rest more → Spells r.awaiting? (argument :: rest) (said ++ more) := by
  rw [Reading.takePlain] at htake
  cases hawaiting : r.awaiting? with
  | some f =>
    simp only [hawaiting] at htake
    cases htake
    obtain ⟨options, pending⟩ := r
    match pending with
    | none => cases hawaiting
    | some (_, some _) => cases hawaiting
    | some (_, none) =>
      cases hawaiting
      exact ⟨[.value f argument], ⟨items, rfl, h⟩, fun rest more hmore =>
        .value (hplain f rfl) hmore⟩
  | none =>
    simp only [hawaiting] at htake
    obtain ⟨-, hnone', hsays⟩ := h.takeName htake
    exact ⟨_, hsays, fun rest more hmore => .name (hplain' hawaiting) (hnone' ▸ hmore)⟩

/-- An argument is read as it is spelled. -/
theorem Says.take (h : r.Says items) {argument : String} (htake : r.take argument = .ok r') :
    ∃ said, r'.Says (items ++ said) ∧ ∀ rest more,
      Spells r'.awaiting? rest more → Spells r.awaiting? (argument :: rest) (said ++ more) := by
  rw [Reading.take] at htake
  split at htake
  · next cs hargument =>
    obtain ⟨hnone, hspells⟩ := h.takeLong htake
    rwa [hnone, ← argument.ofList_toList, hargument]
  · next c cs hlong hargument =>
    -- Behind one hyphen stand letters, or a negative number if a flag that takes numbers waits.
    have hc : c ≠ '-' := hlong
    have hletters (htake : r.takeLetters (c :: cs) = .ok r') :
        r.awaiting? = none ∧ ∃ said, r'.Says (items ++ said) ∧ ∀ rest more,
          Spells r'.awaiting? rest more → Spells none (argument :: rest) (said ++ more) := by
      obtain ⟨hnone, said, hsaid, hsays⟩ := h.takeLetters htake nofun
      refine ⟨hnone, said, hsays, fun rest more hmore => ?_⟩
      rw [← argument.ofList_toList, hargument]
      exact .letters nofun (fun hhead => hc (Option.some.inj hhead)) hsaid hmore
    rw [Reading.takeShort] at htake
    cases hawaiting : r.awaiting? with
    | none =>
      simp only [hawaiting] at htake
      exact (hletters htake).2
    | some f =>
      simp only [hawaiting] at htake
      split at htake
      · next hnumber =>
        obtain ⟨hnumeric, hnumber⟩ := Bool.and_eq_true_iff.mp hnumber
        rw [← hawaiting]
        refine h.takePlain htake (fun f' hf' => ?_) fun hnone => ?_
        · cases hawaiting.symm.trans hf'
          exact .inr ⟨hnumeric, _, hargument, hnumber⟩
        · cases hawaiting.symm.trans hnone
      · cases hawaiting.symm.trans (hletters htake).1
  · next hlong hshort =>
    have hplain : IsPlain argument := fun c cs => hshort c cs
    exact h.takePlain htake (fun _ _ => .inl hplain) fun _ => hplain

/-- Arguments are read as they are spelled. -/
theorem Says.takeAll (h : r.Says items) {arguments : List String}
    (htake : r.takeAll arguments = .ok r') (hdone : r'.awaiting? = none) :
    ∃ said, Spells r.awaiting? arguments said ∧ r'.Says (items ++ said) := by
  induction arguments generalizing r items with
  | nil =>
    cases htake
    exact ⟨[], by rw [hdone]; exact .nil, by rwa [List.append_nil]⟩
  | cons argument arguments ih =>
    unfold Reading.takeAll at htake
    split at htake
    · next heq => cases heq
    · next names heq =>
      cases heq
      obtain ⟨hnone, hall⟩ := h.takeNames htake hdone
      exact ⟨_, by rw [hnone]; exact .names _, hall⟩
    · next heq =>
      cases heq
      obtain ⟨now, hnow, hrest⟩ := bind_eq_ok_iff.mp htake
      obtain ⟨said, hsays, hspells⟩ := h.take hnow
      obtain ⟨more, hmore, hall⟩ := ih hsays hrest
      exact ⟨said ++ more, hspells _ _ hmore, by rwa [← List.append_assoc]⟩

end Reading

/-- **Options are what the arguments say.** Arguments that can be read spell things, and the options
hold these and nothing else. -/
theorem Options.read_spells {arguments : List String} {o : Options}
    (h : Options.read arguments = .ok o) :
    ∃ items, Spells none arguments items ∧ o.Holds items := by
  obtain ⟨r, hall, hsettle⟩ := bind_eq_ok_iff.mp h
  have hbegin : (Reading.mk {} none).Says [] := Options.holds_nil
  obtain ⟨items, hspells, hsays⟩ := hbegin.takeAll hall (Reading.awaiting?_of_settle hsettle)
  exact ⟨items, hspells, hsays.settle hsettle⟩

end GlyphRebase.CommandLine
