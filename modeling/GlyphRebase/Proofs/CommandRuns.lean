import GlyphRebase.Proofs.Announcements
import GlyphRebase.Proofs.Arguments
import GlyphRebase.Proofs.Layout
import GlyphRebase.Proofs.OptionLayers
import GlyphRebase.Proofs.OutputModes
import GlyphRebase.Proofs.Overflow

/-!
# Runs of the program

A run with arguments that can be read is the pass from file to file under the settings that its
options, the named configuration file, the local one and the defaults come to. The tree that it
leaves is that of the pass, and so are the exit code and what is printed: the numbers of the lines,
if they are to be seen, and the final report (`CommandLine.run_under_settings`). The report of a
pass that succeeded can be written down in full, for the code in it is one that an entry had and
needs no escapes (`CommandLine.summaryText_eq`).
-/

namespace GlyphRebase

open Config

/-! ### The final report -/

theorem State.overflowed_eq (s : State) : s.overflowed = s.firstOverflow?.isSome := by
  rw [firstOverflow?]
  cases s.overflowed <;> rfl

/-- Characters that need no escapes are quoted as they are. -/
theorem Json.quote_of_forall {text : String} (h : ∀ c ∈ text.toList, escape c = [c]) :
    quote text = "\"" ++ text ++ "\"" := by
  have hflat : text.toList.flatMap escape = text.toList := by
    rw [List.flatMap_congr h]
    exact List.flatMap_singleton' _
  rw [quote, hflat, ← String.toList_inj]
  simp

theorem IsCode.quote {code : String} (h : IsCode code) :
    Json.quote code = "\"" ++ code ++ "\"" := by
  obtain ⟨hex, -, hhex, rfl⟩ := h
  refine Json.quote_of_forall fun c hc => ?_
  rw [String.toList_ofList] at hc
  obtain rfl | rfl | hc : c = '0' ∨ c = 'x' ∨ c ∈ hex := by simpa using hc
  · rfl
  · rfl
  have hdigit := hhex c hc
  have hlow : 0x30 ≤ c.toNat := (Number.between_of_isHex hdigit).1
  have hne {d : Char} (hd : Number.isHex d = false) : c ≠ d := by
    rintro rfl
    rw [hdigit] at hd
    cases hd
  unfold Json.escape
  iterate 7 rw [if_neg (hne (by decide))]
  rw [if_neg (by omega), if_neg (by omega)]

namespace FilePass

variable {system : System} {rules : Rules} {atomic : Bool} {input output : String} {t : FileTree}
  {s : Summary}

/-- A pass from file to file that succeeds ends with the summary of some lines. -/
theorem exists_summary (h : (runOn system rules atomic input output t).result = .ok s) :
    ∃ texts, s = Reference.summary rules .initial texts := by
  have hpass {t : FileTree} {source : Location}
      (h : (passOver system rules t source).result = .ok s) :
      ∃ texts, s = Reference.summary rules .initial texts := by
    obtain ⟨-, texts, -, hs, -⟩ := Pass.run_eq_ok h
    exact ⟨texts, hs⟩
  cases atomic with
  | true =>
    obtain ⟨source, -, -, -, -, hresult, -⟩ := atomic_eq_ok h
    exact hpass hresult
  | false =>
    rw [runOn, if_neg (by decide)] at h
    have hrun := runDirect_run system rules input output t
    generalize runDirect system rules input output t = r at h hrun
    cases hrun with
    | unopened | uncreated => cases h
    | ran => exact hpass (reported_eq_ok_iff.mp h)

/-- The overflow that is reported at the end is that of an entry. -/
theorem isCode_firstOverflow? (h : (runOn system rules atomic input output t).result = .ok s)
    {code : String} (hcode : s.state.firstOverflow? = some code) : IsCode code := by
  obtain ⟨texts, rfl⟩ := exists_summary h
  obtain ⟨_, _, _, e, -, hover, rfl, -⟩ := Reference.firstOverflow?_stateAfter.mp hcode
  exact Entry.isCode hover.1.1

end FilePass

namespace CommandLine

/-- The final report in full. -/
def reportText (format : SummaryFormat) (s : Summary) : String :=
  match format, s.state.firstOverflow? with
  | .text, none => ""
  | .text, some code => "first u16 overflow at " ++ code ++ "\n"
  | .json, none =>
    "\x7b\"lines\":" ++ toString s.lines ++ ",\"matched\":" ++ toString s.matched ++
      ",\"overflow\":false,\"overflow_hex\":null\x7d\n"
  | .json, some code =>
    "\x7b\"lines\":" ++ toString s.lines ++ ",\"matched\":" ++ toString s.matched ++
      ",\"overflow\":true,\"overflow_hex\":\"" ++ code ++ "\"\x7d\n"

theorem summaryText_eq (format : SummaryFormat) {s : Summary}
    (h : ∀ code, s.state.firstOverflow? = some code → IsCode code) :
    summaryText format s = reportText format s := by
  cases format with
  | text => cases hcode : s.state.firstOverflow? <;> simp only [summaryText, reportText, hcode]
  | json =>
    have hlines : Json.quote "lines" = "\"lines\"" := by decide
    have hmatched : Json.quote "matched" = "\"matched\"" := by decide
    have hoverflow : Json.quote "overflow" = "\"overflow\"" := by decide
    have hhex : Json.quote "overflow_hex" = "\"overflow_hex\"" := by decide
    have hnat (n : Nat) : toString (n : Int) = toString n := rfl
    cases hcode : s.state.firstOverflow? with
    | none =>
      have hseen : s.state.overflowed = false := by rw [s.state.overflowed_eq, hcode]; rfl
      simp only [summaryText, reportText, hcode, hseen, Option.map_none, Option.getD_none,
        Json.render, Json.renderMembers, hlines, hmatched, hoverflow, hhex, hnat]
      simp only [String.intercalate_cons_cons, String.intercalate_singleton, ← String.toList_inj]
      simp
    | some code =>
      have hseen : s.state.overflowed = true := by rw [s.state.overflowed_eq, hcode]; rfl
      simp only [summaryText, reportText, hcode, hseen, Option.map_some, Option.getD_some,
        Json.render, Json.renderMembers, hlines, hmatched, hoverflow, hhex, hnat,
        (h code hcode).quote]
      simp only [String.intercalate_cons_cons, String.intercalate_singleton, ← String.toList_inj]
      simp

/-! ### Runs -/

theorem errorText_eq (message : String) : errorText message = "keyfont: " ++ message := by
  rw [errorText, show program ++ ": " = "keyfont: " by decide]

variable {t : FileTree} {o : Options}

/-- A named configuration file that is missing ends the run before the pass. -/
theorem load_of_missing (hlocal : (Layer.localFile ".").Fits t) {path : String}
    (hpath : o.config = some path) (hmissing : find? t path = none) :
    load t o.layers = .error (.notFound path) := by
  have hsingles : ∀ l ∈ o.singles, l.Fits t := fun l hl => Options.fits_of_mem_singles hl
  obtain ⟨settings, hsettings, -⟩ := settings_shows hsingles
  obtain ⟨v, hlay, -⟩ := Layer.lay_shows hlocal Value.defaults_shows
  have hfile : (Layer.file path).lay t v = .error (.notFound path) := by
    rw [Layer.lay_file, readText, hmissing]
    rfl
  -- The names of the single settings are read before any file is, so they are what may fail first.
  have hread : o.layers.mapM Layer.setting? = .ok (none :: none :: settings) := by
    rw [Options.layers_eq, hpath]
    show (Layer.localFile "." :: Layer.file path :: o.singles).mapM Layer.setting? = _
    rw [List.mapM_cons, List.mapM_cons, hsettings]
    rfl
  have hfold : o.layers.foldlM (Layer.lay t) defaults = .error (.notFound path) := by
    rw [Options.layers_eq, List.foldlM_cons, hlay, hpath]
    show (Layer.file path :: o.singles).foldlM (Layer.lay t) v = _
    rw [List.foldlM_cons, hfile]
    rfl
  rw [load, build, hread]
  show (do let v ← (do let v ← o.layers.foldlM (Layer.lay t) defaults; _); Settings.ofValue v) = _
  rw [hfold]
  rfl

theorem runOptions_of_missing (hlocal : (Layer.localFile ".").Fits t) {path : String}
    (hpath : o.config = some path) (hmissing : find? t path = none) :
    runOptions t o = ⟨1, "", "keyfont: configuration file \"" ++ path ++ "\" not found\n", t⟩ := by
  have htext : errorText (Fault.notFound path).message ++ "\n" =
      "keyfont: configuration file \"" ++ path ++ "\" not found\n" := by
    show errorText ("configuration file \"" ++ path ++ "\" not found") ++ "\n" = _
    rw [errorText_eq, ← String.toList_inj]
    simp
  have hrefused : runOptions t o = refused t 1 (errorText (Fault.notFound path).message) := by
    rw [runOptions, load_of_missing hlocal hpath hmissing]
  rw [hrefused, refused, htext]

theorem load_of_options (hlocal : (Layer.localFile ".").Fits t)
    (hconfig : ∀ path, o.config = some path → (Layer.file path).Fits t) :
    load t o.layers = .ok (.ofKeys (resolved t o.layers)) :=
  load_of_fits (Options.layers_fit hlocal hconfig)

/-- A pass that succeeds prints the numbers of its lines and the report of what it ended with. -/
theorem passText_of_ok {s : Settings} {sum : Summary}
    (h : (FilePass.run s.rules s.atomic s.input s.output t).result = .ok sum) :
    passText s (FilePass.run s.rules s.atomic s.input s.output t) =
      counterText s.progress sum.lines ++ reportText s.summary sum := by
  obtain ⟨-, hannounces⟩ | ⟨-, _, _, -, herror⟩ :=
    FilePass.runOn_announces .sound s.rules s.atomic s.input s.output t
  · rw [← FilePass.run] at hannounces
    rw [passText_of_announces hannounces, h, hannounces.lines sum h, ←
      summaryText_eq s.summary fun code => FilePass.isCode_firstOverflow? h]
    rfl
  · rw [← FilePass.run, h] at herror
    cases herror

/-- **A run of the program is the pass under its settings.** The arguments can be read; the local
configuration file makes nothing but choices, or is missing; and so it is with the file that the
arguments name, if they name one. Then the arguments spell things, each flag at most once, and the
options hold just these. If the named file is missing, the run ends with exit code 1 and changes
nothing. If not, a setting is what its own option says, or else what the named file gives, or else
what the local file gives, or else the default; and the tree afterwards is what the pass under these
settings leaves. If the pass succeeds, the exit code is 0, and printed are the numbers of its lines,
if they are to be seen, and the final report. If it fails, the exit code is 1, its error is printed
as such, and of the report nothing is printed, unless the pass came to its end and its output was
not replaced. -/
theorem run_under_settings {arguments : List String} (hread : Options.read arguments = .ok o)
    (hlocal : (Layer.localFile ".").Fits t)
    (hconfig : ∀ path, o.config = some path → find? t path = none ∨ (Layer.file path).Fits t) :
    let out := run t arguments
    (∃ items, Spells none arguments items ∧ o.Holds items) ∧
    (∀ path, o.config = some path → find? t path = none →
      out = ⟨1, "", "keyfont: configuration file \"" ++ path ++ "\" not found\n", t⟩) ∧
    ((∀ path, o.config = some path → find? t path ≠ none) →
      ∃ s : Settings,
        (∀ k, s.get k =
          (((o.given? k).or (o.config.bind fun path => (Layer.file path).gives? t k)).or
            ((Layer.localFile ".").gives? t k)).getD (Settings.builtin.get k)) ∧
        let r := FilePass.run s.rules s.atomic s.input s.output t
        out.tree = r.tree ∧
        (∀ sum, r.result = .ok sum → out.exitCode = 0 ∧ out.complaint = "" ∧
          out.output = counterText s.progress sum.lines ++ reportText s.summary sum) ∧
        ∀ e, r.result = .error e → out.exitCode = 1 ∧
          out.complaint = "keyfont: " ++ e.message ++ "\n" ∧
          (¬(s.atomic = true ∧ FilePass.Unreplaced .sound s.rules s.input s.output t) →
            out.output = counterText s.progress r.steps.length)) := by
  intro out
  have hout : out = runOptions t o := by
    show run t arguments = _
    rw [run, hread]
  refine ⟨Options.read_spells hread, fun path hpath hmissing => ?_, fun hthere => ?_⟩
  · rw [hout, runOptions_of_missing hlocal hpath hmissing]
  · have hload := load_of_options hlocal fun path hpath =>
      (hconfig path hpath).resolve_left (hthere path hpath)
    refine ⟨.ofKeys (resolved t o.layers), fun k => ?_, ?_⟩
    · rw [Settings.get_ofKeys, Options.resolved_layers]
    generalize Settings.ofKeys (resolved t o.layers) = s at hload
    intro r
    refine ⟨?_, fun sum hsum => ?_, fun e he => ?_⟩
    · rw [hout]
      cases hresult : r.result with
      | ok sum => rw [runOptions_of_ok hload hresult]
      | error e => rw [runOptions_of_error hload hresult]
    · rw [hout, runOptions_of_ok hload hsum]
      exact ⟨rfl, rfl, passText_of_ok hsum⟩
    · rw [hout, runOptions_of_error hload he, errorText_eq]
      exact ⟨rfl, rfl, passText_of_error he⟩

/-- The input comes from an option that goes before the local file, the policy from the named file,
and the form of the report from the local one. -/
theorem run_under_settings_of_two_files :
    let t : FileTree := ⟨[
      (["keyfont.toml"],
        .file (Utf8.encode "[io]\ninput_path = 'old'\n[report]\nsummary = 'json'\n") 0o644),
      (["more.toml"], .file (Utf8.encode "[remap]\nnegative_index = 'reject'\n") 0o644),
      (["table"], .file (Utf8.encode "49200, /* (0xC030) */\nno entry") 0o644)], [], 0o022⟩
    let out := run t ["--config", "more.toml", "table", "out"]
    out.exitCode = 0 ∧ out.complaint = "" ∧
      out.output = "1\n2\n" ++
        "\x7b\"lines\":2,\"matched\":1,\"overflow\":false,\"overflow_hex\":null\x7d\n" ∧
      out.tree = (FilePass.run ⟨512, 0xBFB0, 0x10000, .reject⟩ false "table" "out" t).tree := by
  intro t out
  let o : Options := { config := some "more.toml", input := some "table", output := some "out" }
  let s : Settings := ⟨"table", "out", false, ⟨512, 0xBFB0, 0x10000, .reject⟩, true, .json⟩
  have hread : Options.read ["--config", "more.toml", "table", "out"] = .ok o := by decide +kernel
  have hlocal : (Layer.localFile ".").Fits t := by decide +kernel
  have hconfig : ∀ path, o.config = some path → (Layer.file path).Fits t := by
    rintro path hpath
    cases hpath
    decide +kernel
  have hthere : ∀ path, o.config = some path → find? t path ≠ none := by
    rintro path hpath
    cases hpath
    decide +kernel
  have hsettings : Settings.ofKeys (resolved t o.layers) = s :=
    Except.ok.inj ((load_of_options hlocal hconfig).symm.trans (by decide +kernel))
  obtain ⟨-, -, hruns⟩ := run_under_settings hread hlocal fun path hpath =>
    .inr (hconfig path hpath)
  obtain ⟨s', hget, htree, hok, -⟩ := hruns hthere
  obtain rfl : s' = s := Settings.eq_of_get fun k => by
    rw [hget, ← Options.resolved_layers, ← hsettings, Settings.get_ofKeys]
  have hresult : (FilePass.run s.rules s.atomic s.input s.output t).result =
      .ok ⟨2, 1, ⟨128, "0xC030", false, "0x0000"⟩⟩ := by decide +kernel
  obtain ⟨hexit, hcomplaint, houtput⟩ := hok _ hresult
  exact ⟨hexit, hcomplaint, houtput.trans (by decide +kernel), htree⟩

end CommandLine

end GlyphRebase
