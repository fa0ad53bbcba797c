import GlyphRebase.Proofs.Advance
import GlyphRebase.Proofs.Decimal
import GlyphRebase.Proofs.FaultySinks
import GlyphRebase.Proofs.WholeText

/-!
# The layout of the rebased table

Whatever a pass reads, the code that it carries from line to line is `0x` and hexadecimal digits
(`IsCode`): the first one is, and an entry is recognised by just that. So each entry is written as
a block of one layout (`LaidOut`), a line of ASCII whose comment ends where it should, and the
entries can be read back from the table (`readTable`). It is so however a pass ends, for it writes
whole blocks as long as there is room (`Pass.run_is_laid_out`).
-/

namespace GlyphRebase

open Number Text

/-! ### Glyph codes -/

/-- A glyph code is `0x` and hexadecimal digits, one at least. -/
def IsCode (code : String) : Prop :=
  ∃ hex, hex ≠ [] ∧ (∀ c ∈ hex, isHex c = true) ∧ code = String.ofList ('0' :: 'x' :: hex)

theorem isCode_initial : IsCode State.initial.code :=
  ⟨['0', '0', '0', '0'], by decide, List.all_eq_true.mp (by decide), by decide⟩

/-- The scan takes down as a code only what is one. -/
theorem Entry.isCode {line : String} {e : Entry} (h : ofLine? line = some e) : IsCode e.code := by
  unfold ofLine? scan at h
  -- the index, and what stands before the digits of the code
  iterate 4 obtain ⟨_, -, h⟩ := Option.bind_eq_some_iff.mp h
  obtain ⟨cs, -, h⟩ := Option.bind_eq_some_iff.mp h
  obtain ⟨_, hguard, h⟩ := Option.bind_eq_some_iff.mp h
  obtain ⟨_, -, h⟩ := Option.bind_eq_some_iff.mp h
  obtain ⟨_, -, h⟩ := Option.bind_eq_some_iff.mp h
  cases h
  refine ⟨cs.takeWhile isHex, ?_, fun c hc => ?_, rfl⟩
  · rintro hnil
    rw [hnil] at hguard
    cases hguard
  · exact List.all_eq_true.mp List.all_takeWhile c hc

/-- A line leaves a code behind where it met one. -/
theorem State.isCode_advance {s : State} (h : IsCode s.code) (line : String) (r : Rules) :
    IsCode (s.advance line r).1.code := by
  obtain ⟨hadvance, -⟩ | ⟨e, next, hadvance, hline, hfollows⟩ := s.advance_cases line r
  · rw [hadvance]
    exact h
  · rw [hadvance]
    show IsCode next.code
    rw [hfollows.code]
    exact Entry.isCode hline.1

/-- All that a plan means to write has a code. -/
theorem Plan.isCode_of_mem_steps {rules : Rules} {before : Summary}
    {items : List (Except StreamFault String)} (h : IsCode before.state.code) {step : Step}
    (hstep : step ∈ (ofLines rules before items).steps) : IsCode step.state.code := by
  induction items generalizing before with
  | nil => cases hstep
  | cons item items ih =>
    cases item with
    | error fault => cases hstep
    | ok line =>
      rw [ofLines] at hstep
      by_cases hr : before.rejects line rules = true
      · simp only [if_pos hr] at hstep
        cases hstep
      · simp only [if_neg hr, after] at hstep
        have hnow : IsCode (before.advance line rules).state.code := by
          rw [Summary.advance_state]
          exact State.isCode_advance h line rules
        rcases List.mem_cons.mp hstep with rfl | hstep
        · exact hnow
        · exact ih hnow hstep

/-! ### Blocks -/

/-- The line that a block makes of its parts. -/
def blockLine (sign digits hex : List Char) : List Char :=
  [' ', ' '] ++ (sign ++ digits) ++ [',', '\t', '/', '*', ' ', '0', 'x'] ++ hex ++
    [' ', '*', '/']

/-- The block consists of two blanks, perhaps a minus sign, decimal digits without superfluous
zeros in front, and after a comma and a tab the comment with `0x` and hexadecimal digits. -/
structure LaidOut (sign digits hex : List Char) (block : List UInt8) : Prop where
  sign_cases : sign = [] ∨ sign = ['-']
  canonical : Canonical digits
  hex_ne_nil : hex ≠ []
  isHex : ∀ c ∈ hex, isHex c = true
  bytes : block = Utf8.encode (String.ofList (blockLine sign digits hex ++ ['\n']))

/-- The block has one comment, which it ends with: no other `*` stands in it. -/
def OneComment (block : List UInt8) : Prop :=
  ∃ front inside : List Char, '*' ∉ front ∧ '*' ∉ inside ∧
    block = Utf8.encode (String.ofList (front ++ ['/', '*'] ++ inside ++ ['*', '/', '\n']))

/-- The character is one of ASCII, and none that separates the parts of a table. -/
structure Plain (c : Char) : Prop where
  ascii : c.toNat < 0x80
  ne_lineFeed : c ≠ '\n'
  ne_return : c ≠ '\r'
  ne_star : c ≠ '*'
  ne_comma : c ≠ ','
  ne_blank : c ≠ ' '

theorem plain_minus : Plain '-' :=
  ⟨by decide, by decide, by decide, by decide, by decide, by decide⟩

theorem plain_of_between {c : Char} (h : '0' ≤ c ∧ c ≤ 'f') : Plain c := by
  obtain ⟨hlo, hhi⟩ := h
  have hle : c.toNat ≤ 'f'.toNat := hhi
  refine ⟨Nat.lt_of_le_of_lt hle (by decide), ?_, ?_, ?_, ?_, ?_⟩ <;>
    · rintro rfl
      exact absurd hlo (by decide)

namespace LaidOut

variable {sign digits hex : List Char} {block : List UInt8} (h : LaidOut sign digits hex block)
include h

theorem plain_number {c : Char} (hc : c ∈ sign ++ digits) : Plain c := by
  rcases List.mem_append.mp hc with hc | hc
  · rcases h.sign_cases with hs | hs <;> rw [hs] at hc
    · cases hc
    · rw [List.mem_singleton.mp hc]
      exact plain_minus
  · exact plain_of_between (between_of_isDecimal (h.canonical.isDecimal c hc))

theorem plain_hex {c : Char} (hc : c ∈ hex) : Plain c :=
  plain_of_between (between_of_isHex (h.isHex c hc))

/-- A character of a block is one of ASCII, and only the last of them ends a line. -/
theorem unbroken_of_mem {c : Char} (hc : c ∈ blockLine sign digits hex) :
    c.toNat < 0x80 ∧ c ≠ '\n' ∧ c ≠ '\r' := by
  have hplain {c : Char} (hc : Plain c) : c.toNat < 0x80 ∧ c ≠ '\n' ∧ c ≠ '\r' :=
    ⟨hc.ascii, hc.ne_lineFeed, hc.ne_return⟩
  have hfixed {cs : List Char} (hc : c ∈ cs)
      (hcs : cs.all (fun c => c.toNat < 0x80 && c ≠ '\n' && c ≠ '\r') = true) :
      c.toNat < 0x80 ∧ c ≠ '\n' ∧ c ≠ '\r' := by
    simpa [and_assoc] using List.all_eq_true.mp hcs c hc
  simp only [blockLine, List.append_assoc, List.mem_append] at hc
  rcases hc with hc | hc | hc | hc | hc | hc
  · exact hfixed hc (by decide)
  · exact hplain (h.plain_number (List.mem_append_left _ hc))
  · exact hplain (h.plain_number (List.mem_append_right _ hc))
  · exact hfixed hc (by decide)
  · exact hplain (h.plain_hex hc)
  · exact hfixed hc (by decide)

theorem ascii : ∀ b ∈ block, b < 0x80 := by
  intro b hb
  rw [h.bytes, Utf8.encode_ofList, List.mem_flatMap] at hb
  obtain ⟨c, hc, hb⟩ := hb
  have hascii : c.toNat < 0x80 := by
    rcases List.mem_append.mp hc with hc | hc
    · exact (h.unbroken_of_mem hc).1
    · rw [List.mem_singleton.mp hc]
      decide
  rcases Utf8.encodeChar_cases c with ⟨b', hb', hone, -⟩ | ⟨hbeyond, -⟩
  · rw [hone, List.mem_singleton] at hb
    exact hb ▸ hb'
  · omega

theorem count_lineFeed : block.count lineFeed = 1 := by
  have hunbroken : Unbroken ((blockLine sign digits hex).flatMap String.utf8EncodeChar) := by
    intro b hb
    obtain ⟨c, hc, hb⟩ := List.mem_flatMap.mp hb
    obtain ⟨-, hlf, hcr⟩ := h.unbroken_of_mem hc
    exact unbroken_encodeChar hlf hcr b hb
  have hnone : lineFeed ∉ (blockLine sign digits hex).flatMap String.utf8EncodeChar := fun hmem =>
    (endsLine_eq_false_iff.mp (hunbroken lineFeed hmem)).1 rfl
  rw [h.bytes, Utf8.encode_ofList, List.flatMap_append, List.count_append,
    List.count_eq_zero_of_not_mem hnone]
  decide

theorem oneComment : OneComment block := by
  have hnumber : '*' ∉ sign ++ digits := fun hc => (h.plain_number hc).ne_star rfl
  have hhex : '*' ∉ hex := fun hc => (h.plain_hex hc).ne_star rfl
  refine ⟨[' ', ' '] ++ (sign ++ digits) ++ [',', '\t'], [' ', '0', 'x'] ++ hex ++ [' '], ?_, ?_,
    ?_⟩
  · simpa using hnumber
  · simpa using hhex
  · rw [h.bytes]
    simp [blockLine]

end LaidOut

/-- The parts are those that the entry is written with: those of its index, and its code. -/
structure Entry.Parts (e : Entry) (sign digits hex : List Char) : Prop where
  index : (Number.render e.index).toList = sign ++ digits
  code : e.code = String.ofList ('0' :: 'x' :: hex)

theorem Entry.Parts.toList_render {e : Entry} {sign digits hex : List Char}
    (h : e.Parts sign digits hex) : e.render.toList = blockLine sign digits hex ++ ['\n'] := by
  simp [render, blockLine, h.index, h.code]

/-- **An entry with a code is written as a block.** -/
theorem Entry.laidOut {e : Entry} (h : IsCode e.code) :
    ∃ sign digits hex, e.Parts sign digits hex ∧ LaidOut sign digits hex e.bytes := by
  obtain ⟨hex, hne, hhex, hcode⟩ := h
  obtain ⟨sign, hsign, hindex⟩ := render_eq e.index
  have hparts : e.Parts sign (decimal e.index.toInt.natAbs) hex := ⟨hindex, hcode⟩
  refine ⟨sign, _, hex, hparts, hsign, canonical_decimal _, hne, hhex, congrArg Utf8.encode ?_⟩
  rw [← hparts.toList_render, String.ofList_toList]

/-! ### Reading a table back -/

/-- The entry that a line of the table shows. -/
def Entry.readLine (cs : List Char) : Option Entry := do
  let cs ← after [' ', ' '] cs
  let index ← (readSigned 10 (cs.takeWhile (· ≠ ','))).toOption
  let cs ← after [',', '\t', '/', '*', ' '] (cs.dropWhile (· ≠ ','))
  let code := cs.takeWhile (· ≠ ' ')
  let rest ← after [' ', '*', '/'] (cs.dropWhile (· ≠ ' '))
  if rest.isEmpty then some ⟨index, String.ofList code⟩ else none

/-- The entries that a table shows. -/
def readTable (bytes : List UInt8) : Option (List Entry) := do
  let text ← (Utf8.decode bytes).toOption
  (Text.lines text.toList).mapM Entry.readLine

theorem takeWhile_ne_append {c : Char} {cs : List Char} (h : ∀ d ∈ cs, d ≠ c) (rest : List Char) :
    (cs ++ c :: rest).takeWhile (· ≠ c) = cs := by
  rw [List.takeWhile_append_of_pos (by simpa using h), List.takeWhile_cons_of_neg (by simp),
    List.append_nil]

theorem dropWhile_ne_append {c : Char} {cs : List Char} (h : ∀ d ∈ cs, d ≠ c) (rest : List Char) :
    (cs ++ c :: rest).dropWhile (· ≠ c) = c :: rest := by
  rw [List.dropWhile_append_of_pos (by simpa using h), List.dropWhile_cons_of_neg (by simp)]

/-- **A block shows the entry that it was written for.** -/
theorem Entry.Parts.readLine {e : Entry} {sign digits hex : List Char}
    (hparts : e.Parts sign digits hex) (h : LaidOut sign digits hex e.bytes) :
    Entry.readLine (blockLine sign digits hex) = some e := by
  have hcomma : ∀ c ∈ sign ++ digits, c ≠ ',' := fun c hc => (h.plain_number hc).ne_comma
  have hblank : ∀ c ∈ '0' :: 'x' :: hex, c ≠ ' ' := by
    simp only [List.forall_mem_cons]
    exact ⟨by decide, by decide, fun c hc => (h.plain_hex hc).ne_blank⟩
  have hread : readSigned 10 (sign ++ digits) = .ok e.index := by
    rw [← hparts.index, readSigned_render]
  have hline : blockLine sign digits hex = [' ', ' '] ++ (sign ++ digits ++ ',' ::
      (['\t', '/', '*', ' '] ++ ('0' :: 'x' :: hex ++ ' ' :: ['*', '/']))) := by
    simp [blockLine]
  have hafter (word rest : List Char) : after word (word ++ rest) = some rest :=
    after_eq_some_iff.mpr rfl
  have hbetween (rest : List Char) :
      after [',', '\t', '/', '*', ' '] (',' :: (['\t', '/', '*', ' '] ++ rest)) = some rest :=
    hafter _ rest
  have hend : after [' ', '*', '/'] (' ' :: ['*', '/']) = some [] := hafter _ []
  rw [hline, Entry.readLine, hafter]
  simp only [Option.bind_eq_bind, Option.bind_some, takeWhile_ne_append hcomma,
    dropWhile_ne_append hcomma, hread, Except.toOption, hbetween, takeWhile_ne_append hblank,
    dropWhile_ne_append hblank, hend]
  rw [← hparts.code]
  rfl

/-- **A table can be read back.** The lines of entries with codes show these entries. -/
theorem readTable_bytes {entries : List Entry} (h : ∀ e ∈ entries, IsCode e.code) :
    readTable (entries.flatMap Entry.bytes) = some entries := by
  have hbytes : entries.flatMap Entry.bytes =
      Utf8.encode (String.ofList (entries.flatMap fun e => e.render.toList)) := by
    rw [Utf8.encode_ofList, List.flatMap_assoc]
    rfl
  rw [readTable, hbytes, Utf8.decode_encode]
  simp only [Except.toOption, Option.bind_eq_bind, Option.bind_some, String.toList_ofList]
  clear hbytes
  induction entries with
  | nil => rfl
  | cons e entries ih =>
    obtain ⟨he, hentries⟩ := List.forall_mem_cons.mp h
    obtain ⟨sign, digits, hex, hparts, hlaid⟩ := Entry.laidOut he
    have hline : ∀ c ∈ blockLine sign digits hex, c ≠ '\n' ∧ c ≠ '\r' := fun c hc =>
      (hlaid.unbroken_of_mem hc).2
    rw [List.flatMap_cons, hparts.toList_render, List.append_assoc,
      List.singleton_append, Text.lines_append hline, List.mapM_cons,
      hparts.readLine hlaid, ih hentries]
    rfl

namespace Pass

/-- With room for everything a pass has written the entries that it announced, and all of them have
codes. -/
theorem run_of_room (rules : Rules) (source : Source) {sink : Sink} (hroom : sink.room? = none)
    (hportion : sink.portion? ≠ some 0) :
    (run rules source sink).sink.taken.toList =
        sink.taken.toList ++ Step.allBytes (run rules source sink).steps ∧
      ∀ step ∈ (run rules source sink).steps, IsCode step.state.code := by
  cases hrules : rules.fault? with
  | some reason =>
    rw [run, hrules]
    exact ⟨(List.append_nil _).symm, fun step hstep => absurd hstep List.not_mem_nil⟩
  | none =>
    obtain ⟨plan, hplan⟩ : ∃ plan, Plan.ofSource rules source = plan := ⟨_, rfl⟩
    have hall : sink.HasRoom (Step.allBytes plan.steps).length := Sink.hasRoom_of_room hroom _
    have hcodes : ∀ step ∈ plan.steps, IsCode step.state.code := by
      intro step hstep
      rw [← hplan] at hstep
      exact Plan.isCode_of_mem_steps isCode_initial hstep
    rcases flush_cases sink plan.ending with hflush | ⟨hflush, summary, hending⟩
    · have hr := run_of_hasRoom hrules hplan hportion hall hflush
      rw [hr.steps]
      exact ⟨hr.taken, hcodes⟩
    · obtain ⟨-, hsteps, -, -, htaken, -⟩ :=
        run_of_flushFails hrules hplan hportion hall hflush hending
      rw [hsteps]
      exact ⟨htaken, hcodes⟩

/-- **What a pass writes is laid out, and can be read back.** Whatever the rules and the source, and
however the pass ends: if the sink has room, then what it takes is a sequence of blocks, one for
each line that was announced. Each block is laid out, consists of ASCII, ends with its only line
feed, and its comment ends where it should. From the blocks alone the entries that were announced
can be read, their indices as they were. -/
theorem run_is_laid_out (rules : Rules) (source : Source) {sink : Sink} (hroom : sink.room? = none)
    (hportion : sink.portion? ≠ some 0) :
    let r := run rules source sink
    let entries := r.steps.map fun step => step.state.entry
    r.sink.taken.toList = sink.taken.toList ++ entries.flatMap Entry.bytes ∧
      (∀ e ∈ entries,
        (∃ sign digits hex, e.Parts sign digits hex ∧ LaidOut sign digits hex e.bytes) ∧
        (∀ b ∈ e.bytes, b < 0x80) ∧ e.bytes.count lineFeed = 1 ∧ OneComment e.bytes) ∧
      readTable (entries.flatMap Entry.bytes) = some entries := by
  intro r entries
  obtain ⟨htaken, hcodes⟩ := run_of_room rules source hroom hportion
  have hentries : ∀ e ∈ entries, IsCode e.code := by
    intro e he
    obtain ⟨step, hstep, rfl⟩ := List.mem_map.mp he
    exact hcodes step hstep
  refine ⟨?_, fun e he => ?_, readTable_bytes hentries⟩
  · rw [List.flatMap_map]
    exact htaken
  · obtain ⟨sign, digits, hex, hparts, hlaid⟩ := Entry.laidOut (hentries e he)
    exact ⟨⟨sign, digits, hex, hparts, hlaid⟩, hlaid.ascii, hlaid.count_lineFeed, hlaid.oneComment⟩

/-- The pass ends at a line that is no text, after an index below zero and a line without an
entry. -/
theorem run_is_laid_out_broken_off :
    let source := Source.ofBytes (Utf8.encode "0, /* (0x0aF0) */\r\nno entry\n" ++ [0xFF, 0x0A])
    let sink : Sink := { portion? := some 7, flushFails := true }
    let r := run .standard source sink
    sink.room? = none ∧ sink.portion? ≠ some 0 ∧
      r.result = .error (.read
        ⟨.invalidData, "invalid utf-8 sequence of 1 bytes from index 0"⟩) ∧
      r.sink.taken.toList = Utf8.encode "  -49072,\t/* 0x0aF0 */\n  -49072,\t/* 0x0aF0 */\n" ∧
      readTable r.sink.taken.toList = some [⟨-49072, "0x0aF0"⟩, ⟨-49072, "0x0aF0"⟩] := by
  intro source sink r
  have hroom : sink.room? = none := rfl
  have hportion : sink.portion? ≠ some 0 := by decide
  obtain ⟨htaken, -, hread⟩ := run_is_laid_out .standard source hroom hportion
  have hentries : (r.steps.map fun step => step.state.entry) =
      [⟨-49072, "0x0aF0"⟩, ⟨-49072, "0x0aF0"⟩] := by decide +kernel
  refine ⟨hroom, hportion, by decide +kernel, by decide +kernel, ?_⟩
  rw [← hentries, ← hread, htaken]
  rfl

end Pass

end GlyphRebase
