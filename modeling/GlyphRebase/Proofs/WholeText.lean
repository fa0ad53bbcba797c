import GlyphRebase.Proofs.LineEnds
import GlyphRebase.Proofs.Reference
import GlyphRebase.Proofs.TextPrefix

/-!
# Lines of a whole text

A source cuts bytes into lines and decodes each line by itself. The other way round, a text may be
decoded as a whole and then be cut into lines, at its characters (`Text.linesOf`). Both come to the
same (`linesOf_encode`), for a terminator is a character of its own and no part of a longer one.

If the bytes are no text, then some line is none, and the first such line is the one that holds the
place where the whole is in disorder (`LineAt.longestText`). So a pass that allows negative
indices ends without an error just over texts, and otherwise at that very line, with the place told
from where the line starts (`Pass.run_decodes_whole`).
-/

namespace GlyphRebase

open Reference

/-! ### Cutting a text at its characters -/

namespace Text

/-- The lines of characters. -/
def lines : List Char → List (List Char)
  | [] => []
  | '\r' :: '\n' :: cs => [] :: lines cs
  | c :: cs =>
    if c = '\n' ∨ c = '\r' then [] :: lines cs
    else
      match lines cs with
      | [] => [[c]]
      | l :: ls => (c :: l) :: ls

/-- The first line of a text is what stands before its line feed. -/
theorem lines_append {line : List Char} (h : ∀ c ∈ line, c ≠ '\n' ∧ c ≠ '\r')
    (cs : List Char) : lines (line ++ '\n' :: cs) = line :: lines cs := by
  induction line with
  | nil =>
    rw [List.nil_append, lines, if_pos (.inl rfl)]
    exact nofun
  | cons c line ih =>
    obtain ⟨⟨hlf, hcr⟩, hline⟩ := List.forall_mem_cons.mp h
    rw [List.cons_append, lines, if_neg (not_or.mpr ⟨hlf, hcr⟩), ih hline]
    exact fun _ hc => absurd hc hcr

/-- The lines of a text. -/
def linesOf (text : String) : List String := (lines text.toList).map String.ofList

example : linesOf "a\r\nb\r\rc\n" = ["a", "b", "", "c"] := by decide +kernel

end Text

/-- A character that ends no line holds no terminator. -/
theorem unbroken_encodeChar {c : Char} (hlf : c ≠ '\n') (hcr : c ≠ '\r') :
    Unbroken (String.utf8EncodeChar c) := by
  intro b hb
  rw [endsLine_eq_false_iff]
  rcases Utf8.encodeChar_cases c with ⟨b', -, hone, hc⟩ | ⟨-, hbeyond⟩
  · rw [hone, List.mem_singleton] at hb
    subst hb
    constructor
    · rintro rfl
      exact hlf (Char.toNat_inj.mp hc.symm)
    · rintro rfl
      exact hcr (Char.toNat_inj.mp hc.symm)
  · constructor
    · rintro rfl
      exact hbeyond _ hb (by decide)
    · rintro rfl
      exact hbeyond _ hb (by decide)

/-- Only a text that begins with a line feed has bytes that do. -/
theorem head?_flatMap_ne {cs : List Char} (h : cs.head? ≠ some '\n') :
    (cs.flatMap String.utf8EncodeChar).head? ≠ some lineFeed := by
  cases cs with
  | nil => exact nofun
  | cons c cs =>
    have hlf : c ≠ '\n' := by simpa using h
    rw [List.flatMap_cons]
    by_cases hcr : c = '\r'
    · subst hcr
      show some carriageReturn ≠ some lineFeed
      decide
    · intro hhead
      have hunbroken := unbroken_encodeChar hlf hcr
      have hpos := Utf8.length_encodeChar_pos c
      rw [List.head?_append_of_ne_nil _ (List.length_pos_iff.mp hpos)] at hhead
      exact hunbroken.head?_ne hhead

/-- Unbroken bytes in front belong to the first line of what follows. -/
theorem linesOf_append {text : List UInt8} (ht : Unbroken text) (hne : text ≠ [])
    (rest : List UInt8) :
    linesOf (text ++ rest) =
      match linesOf rest with
      | [] => [text]
      | l :: ls => (text ++ l) :: ls := by
  obtain hrest | ⟨t, e, more, hline, he, rfl⟩ := exists_lineEnd rest
  · by_cases hnil : rest = []
    · rw [hnil, List.append_nil, linesOf_nil, linesOf_unbroken ht hne]
    · rw [linesOf_unbroken hrest hnil, linesOf_unbroken (ht.append hrest) (by simp [hne])]
  · rw [linesOf_ended hline he, ← List.append_assoc, linesOf_ended (ht.append hline) he]

theorem linesOf_flatMap (cs : List Char) :
    linesOf (cs.flatMap String.utf8EncodeChar) =
      (Text.lines cs).map (·.flatMap String.utf8EncodeChar) := by
  fun_induction Text.lines cs with
  | case1 => exact linesOf_nil
  | case2 cs ih =>
    have h (rest : List UInt8) :
        linesOf (carriageReturn :: lineFeed :: rest) = [] :: linesOf rest :=
      linesOf_ended (e := .crlf) .nil nofun
    exact (h _).trans (congrArg ([] :: ·) ih)
  | case3 c cs hpair hc ih =>
    rcases hc with rfl | rfl
    · have h (rest : List UInt8) : linesOf (lineFeed :: rest) = [] :: linesOf rest :=
        linesOf_ended (e := .lf) .nil nofun
      exact (h _).trans (congrArg ([] :: ·) ih)
    · have hhead : cs.head? ≠ some '\n' := by
        cases cs with
        | nil => exact nofun
        | cons d ds =>
          intro hd
          cases hd
          exact hpair ds rfl rfl
      have h := linesOf_ended (e := .cr) .nil fun _ => head?_flatMap_ne hhead
      exact h.trans (congrArg ([] :: ·) ih)
  | case4 c cs hpair hc hnone ih =>
    obtain ⟨hlf, hcr⟩ := not_or.mp hc
    have hne := List.length_pos_iff.mp (Utf8.length_encodeChar_pos c)
    rw [List.flatMap_cons, linesOf_append (unbroken_encodeChar hlf hcr) hne, ih, hnone]
    simp
  | case5 c cs hpair hc l ls hsome ih =>
    obtain ⟨hlf, hcr⟩ := not_or.mp hc
    have hne := List.length_pos_iff.mp (Utf8.length_encodeChar_pos c)
    rw [List.flatMap_cons, linesOf_append (unbroken_encodeChar hlf hcr) hne, ih, hsome]
    simp

/-- **Cutting and decoding may change places.** -/
theorem linesOf_encode (text : String) :
    linesOf (Utf8.encode text) = (Text.linesOf text).map Utf8.encode := by
  rw [Utf8.encode, linesOf_flatMap, Text.linesOf, List.map_map]
  exact List.map_congr_left fun cs _ => (Utf8.encode_ofList cs).symm

/-! ### Lines that are texts -/

theorem LineEnd.isText_append_iff {text rest : List UInt8} (e : LineEnd) :
    Utf8.IsText (text ++ (e.bytes ++ rest)) ↔ Utf8.IsText text ∧ Utf8.IsText rest := by
  have hlf : Utf8.IsText (lineFeed :: rest) ↔ Utf8.IsText rest := by
    have h := Utf8.isText_append_cons_iff (a := []) (c := rest) (b := lineFeed) (by decide)
    exact h.trans (and_iff_right .nil)
  cases e with
  | lf => exact Utf8.isText_append_cons_iff (by decide)
  | cr => exact Utf8.isText_append_cons_iff (by decide)
  | crlf =>
    have h := Utf8.isText_append_cons_iff (a := text) (c := lineFeed :: rest)
      (b := carriageReturn) (by decide)
    exact h.trans (and_congr_right fun _ => hlf)

/-- Bytes are a text just if all their lines are. -/
theorem isText_iff_forall_lines {bytes : List UInt8} :
    Utf8.IsText bytes ↔ ∀ line ∈ linesOf bytes, Utf8.IsText line := by
  induction bytes using lines_induction with
  | unbroken text ht =>
    by_cases hne : text = []
    · rw [hne, linesOf_nil]
      exact ⟨fun _ _ h => (nomatch h), fun _ => .nil⟩
    · rw [linesOf_unbroken ht hne]
      simp
  | ended text e rest ht he ih =>
    rw [linesOf_ended ht he, List.forall_mem_cons, e.isText_append_iff, ih]

/-! ### The line that holds a place -/

/-- The line stands between the front and the rest of the bytes: it holds no terminator, and on
each side there is one, or an end of the bytes. -/
structure LineAt (bytes front line rest : List UInt8) : Prop where
  parts : bytes = front ++ (line ++ rest)
  begins : ∀ b, front.getLast? = some b → endsLine b = true
  unbroken : Unbroken line
  ends : ∀ b, rest.head? = some b → endsLine b = true

/-- Each of the lines stands somewhere in the bytes, and the lines before it are those of the
front. -/
theorem exists_lineAt {bytes line : List UInt8} {before after : List (List UInt8)}
    (h : linesOf bytes = before ++ line :: after) :
    ∃ front rest, LineAt bytes front line rest ∧ linesOf front = before := by
  induction bytes using lines_induction generalizing before with
  | unbroken text ht =>
    have htext : text ≠ [] := by
      rintro rfl
      rw [linesOf_nil] at h
      simp at h
    rw [linesOf_unbroken ht htext] at h
    cases before with
    | nil =>
      cases h
      exact ⟨[], [], ⟨by simp, nofun, ht, nofun⟩, linesOf_nil⟩
    | cons l before => simp at h
  | ended text e rest ht he ih =>
    rw [linesOf_ended ht he] at h
    cases before with
    | nil =>
      cases h
      refine ⟨[], e.bytes ++ rest, ⟨rfl, nofun, ht, fun b hb => ?_⟩, linesOf_nil⟩
      have hpos := List.length_pos_iff.mp e.length_bytes_pos
      rw [List.head?_append_of_ne_nil _ hpos] at hb
      exact LineEnd.endsLine_of_mem (List.mem_of_head? hb)
    | cons l before =>
      rw [List.cons_append, List.cons.injEq] at h
      obtain ⟨rfl, h⟩ := h
      obtain ⟨front, more, hline, hfront⟩ := ih h
      have he' : e.EndsBefore front := by
        intro hcr
        have hhead := he hcr
        rw [hline.parts] at hhead
        cases front with
        | nil => exact nofun
        | cons b front => exact hhead
      refine ⟨text ++ (e.bytes ++ front), more, ⟨?_, ?_, hline.unbroken, hline.ends⟩, ?_⟩
      · rw [hline.parts]
        simp
      · intro b hb
        rw [List.getLast?_append, List.getLast?_append] at hb
        cases hfb : front.getLast? with
        | some b' =>
          rw [hfb] at hb
          cases hb
          exact hline.begins b hfb
        | none =>
          have hend : e.bytes.getLast? = some b := by
            rw [hfb] at hb
            cases e <;> exact hb
          exact LineEnd.endsLine_of_mem (List.mem_of_getLast? hend)
      · rw [linesOf_ended ht he', hfront]

/-- **The place of the disorder.** If the front is a text and the line behind it is none, then the
bytes are a text as far as the front and as much of the line as is one. -/
theorem LineAt.longestText {bytes front line rest : List UInt8} {n : Nat}
    (h : LineAt bytes front line rest) (hfront : Utf8.IsText front) (hline : ¬Utf8.IsText line)
    (hn : Utf8.LongestText line n) : Utf8.LongestText bytes (front.length + n) := by
  have hle := hn.le_length
  have hparts := h.parts
  subst hparts
  refine ⟨?_, ?_, fun m hm htext => ?_⟩
  · simp only [List.length_append]
    omega
  · rw [List.take_length_add_append, hfront.append_iff, List.take_append_of_le_length hle]
    exact hn.isText
  · by_contra hlt
    obtain ⟨k, rfl⟩ := Nat.exists_eq_add_of_le (show front.length ≤ m by omega)
    rw [List.take_length_add_append, hfront.append_iff] at htext
    by_cases hk : k ≤ line.length
    · rw [List.take_append_of_le_length hk] at htext
      have := hn.longest k hk htext
      omega
    · -- beyond the line there is a terminator, where the text could be cut
      obtain ⟨j, rfl⟩ := Nat.exists_eq_add_of_lt (Nat.lt_of_not_le hk)
      rw [Nat.add_assoc, List.take_length_add_append] at htext
      cases rest with
      | nil =>
        simp only [List.length_append, List.length_nil] at hm
        omega
      | cons b more =>
        have hb : b < 0x80 := by
          have hterm := h.ends b rfl
          simp only [endsLine, Bool.or_eq_true, beq_iff_eq] at hterm
          rcases hterm with rfl | rfl <;> decide
        rw [List.take_succ_cons] at htext
        exact hline ((Utf8.isText_append_cons_iff hb).mp htext).1

namespace Pass

theorem accepted_of_allow {rules : Rules} (h : rules.negative = .allow) (s : State)
    (texts : List String) : Accepted rules s texts := by
  rintro before line after - ⟨hreject, -⟩
  rw [h] at hreject
  cases hreject

/-- The pass came to the end of the texts, and wrote and announced the entries of all. -/
structure WentThrough (rules : Rules) (sink : Sink) (texts : List String) (r : Report Sink) :
    Prop where
  result : r.result = .ok (summary rules .initial texts)
  events : r.events = events rules .initial 0 texts ++
    [.flushed, .finished (summary rules .initial texts)]
  taken : r.sink.taken.toList = sink.taken.toList ++ output rules .initial texts

/-- The pass ended at a line of the bytes, of which it found the place in disorder, and had written
and announced the entries of the texts that are the lines before it. -/
structure EndedAt (rules : Rules) (sink : Sink) (bytes : List UInt8) (place : Nat)
    (texts : List String) (line : List UInt8) (r : Report Sink) : Prop where
  /-- The line follows the texts. -/
  follows : ∃ after, linesOf bytes = texts.map Utf8.encode ++ line :: after
  /-- It holds the place, which is told from its start. -/
  result : ∃ front rest length?, LineAt bytes front line rest ∧
    linesOf front = texts.map Utf8.encode ∧
    front.length ≤ place ∧ place < front.length + line.length ∧
    r.result = .error (.read (Utf8.Fault.toStreamFault ⟨place - front.length, length?⟩))
  events : r.events = events rules .initial 0 texts
  taken : r.sink.taken.toList = sink.taken.toList ++ output rules .initial texts

section
variable {rules : Rules} (hrules : rules.fault? = none) (hallow : rules.negative = .allow)
  {source : Source} {bytes : List UInt8} {sink : Sink} (hsource : source.Delivers bytes)
  (hsink : sink.Accepting)
include hrules hallow hsource hsink

/-- A pass over the bytes of a text goes through the lines of the text. -/
theorem run_of_text {text : String} (h : Utf8.decode bytes = .ok text) :
    source.lines = (Text.linesOf text).map .ok ∧
      WentThrough rules sink (Text.linesOf text) (run rules source sink) := by
  have hlines : linesOf bytes = (Text.linesOf text).map Utf8.encode := by
    rw [← Utf8.decode_eq_ok_iff.mp h, linesOf_encode]
  obtain ⟨-, hstops⟩ := (run_refines rules hsource hsink).2 hrules
  obtain ⟨hresult, -, hevents, htaken, -⟩ :=
    hstops _ none (.finished hlines (accepted_of_allow hallow _ _))
  refine ⟨?_, hresult, hevents, htaken⟩
  rw [Source.lines_of_delivers hsource, hlines, map_lineText_encode]

/-- A pass over bytes that are no text ends at the line that holds the place in disorder. -/
theorem run_of_fault {fault : Utf8.Fault} (h : Utf8.decode bytes = .error fault) :
    ∃ texts line, EndedAt rules sink bytes fault.start texts line (run rules source sink) := by
  obtain ⟨⟨texts, stop?, hstop⟩, hstops⟩ := (run_refines rules hsource hsink).2 hrules
  obtain ⟨hresult, -, hevents, htaken, -⟩ := hstops texts stop? hstop
  have hnotext : ¬Utf8.IsText bytes := Utf8.decode_error_iff.mp ⟨fault, h⟩
  have htexts {front : List UInt8} (hfront : linesOf front = texts.map Utf8.encode) :
      Utf8.IsText front := by
    rw [isText_iff_forall_lines, hfront]
    intro line hline
    obtain ⟨text, -, rfl⟩ := List.mem_map.mp hline
    exact Utf8.isText_encode text
  cases hstop with
  | finished hlines _ => exact absurd (htexts hlines) hnotext
  | negative _ _ hrejected =>
    cases hallow.symm.trans hrejected.1
  | @noText line after lineFault hlines _ hbad hlineFault =>
    obtain ⟨g, hg⟩ := Utf8.decode_error_iff.mpr hbad
    obtain ⟨front, rest, hat, hfront⟩ := exists_lineAt hlines
    have hlongest := Utf8.longestText_of_error hg
    have hplace := (Utf8.longestText_of_error h).unique
      (hat.longestText (htexts hfront) hbad hlongest)
    -- the line as a whole is no text, so the place lies before its end
    have hinside : g.start < line.length := by
      refine Nat.lt_of_le_of_ne hlongest.le_length fun hend => hbad ?_
      have htake := hlongest.isText
      rwa [hend, List.take_length] at htake
    have heq : lineFault = g.toStreamFault := by
      rw [lineText, hg] at hlineFault
      cases hlineFault
      rfl
    refine ⟨texts, line, ⟨after, hlines⟩, ⟨front, rest, g.length?, hat, hfront, ?_, ?_, ?_⟩, ?_, ?_⟩
    · omega
    · omega
    · rw [hplace, Nat.add_sub_cancel_left, hresult, heq]
      rfl
    · rw [hevents]
      simp
    · exact htaken

end

/-- **Decoding line by line agrees with decoding the whole.** Under rules that can be applied and
allow negative indices, a pass over bytes, however they are delivered, ends without an error just if
the bytes are a text, and then it has gone through the lines of that text. If the bytes are no text,
decoding the whole finds a fault, which starts where the longest part in front that is a text ends;
the pass ends with a fault of the line that holds this place, told from the start of the line, and
it has written exactly the entries of the lines before. -/
theorem run_decodes_whole {rules : Rules} (hrules : rules.fault? = none)
    (hallow : rules.negative = .allow) {source : Source} {bytes : List UInt8}
    (hsource : source.Delivers bytes) {sink : Sink} (hsink : sink.Accepting) :
    let r := run rules source sink
    ((∃ s, r.result = .ok s) ↔ Utf8.IsText bytes) ∧
      (∀ text, Utf8.decode bytes = .ok text →
        source.lines = (Text.linesOf text).map .ok ∧
        WentThrough rules sink (Text.linesOf text) r) ∧
      ∀ fault, Utf8.decode bytes = .error fault →
        Utf8.LongestText bytes fault.start ∧
        ∃ texts line, EndedAt rules sink bytes fault.start texts line r := by
  refine ⟨⟨?_, ?_⟩, fun _ => run_of_text hrules hallow hsource hsink, fun fault h => ?_⟩
  · rintro ⟨s, hs⟩
    by_contra hno
    obtain ⟨fault, h⟩ := Utf8.decode_error_iff.mpr hno
    obtain ⟨texts, line, hended⟩ := run_of_fault hrules hallow hsource hsink h
    obtain ⟨_, _, _, -, -, -, -, hresult⟩ := hended.result
    rw [hs] at hresult
    cases hresult
  · rintro ⟨text, hbytes⟩
    have hthrough := (run_of_text hrules hallow hsource hsink (Utf8.decode_eq_ok_iff.mpr hbytes)).2
    exact ⟨_, hthrough.result⟩
  · exact ⟨Utf8.longestText_of_error h, run_of_fault hrules hallow hsource hsink h⟩

/-- The second line breaks off inside a character; the chunks are cut inside a character of the
first. -/
theorem run_decodes_whole_broken_off :
    let first := Utf8.encode "49200, /* (0xC030) */ "
    let source : Source := ⟨[], [.chunk (first ++ [0xC3]),
      .chunk ([0xA9, 0x0D, 0x0A, 0x61, 0xE2, 0x82, 0x0D, 0x78])]⟩
    let bytes := first ++ [0xC3, 0xA9, 0x0D, 0x0A, 0x61, 0xE2, 0x82, 0x0D, 0x78]
    let r := run .standard source Sink.perfect
    source.Delivers bytes ∧ ¬Utf8.IsText bytes ∧ Utf8.LongestText bytes 27 ∧
      (∃ texts line, EndedAt .standard .perfect bytes 27 texts line r) ∧
      r.result = .error (.read
        ⟨.invalidData, "incomplete utf-8 byte sequence from index 1"⟩) ∧
      r.sink.taken.toList = Utf8.encode "  128,\t/* 0xC030 */\n" := by
  intro first source bytes r
  have hsource : source.Delivers bytes :=
    ⟨[first ++ [0xC3], [0xA9, 0x0D, 0x0A, 0x61, 0xE2, 0x82, 0x0D, 0x78]], by decide +kernel, rfl,
      by decide +kernel⟩
  have hrules : Rules.standard.fault? = none := by decide
  obtain ⟨hok, -, hfault⟩ := run_decodes_whole hrules rfl hsource Sink.accepting_perfect
  obtain ⟨hlongest, hended⟩ := hfault ⟨27, some 2⟩ (by decide +kernel)
  have hresult : r.result = .error (.read
      ⟨.invalidData, "incomplete utf-8 byte sequence from index 1"⟩) := by decide +kernel
  refine ⟨hsource, fun htext => ?_, hlongest, hended, hresult, by decide +kernel⟩
  obtain ⟨s, hs⟩ := hok.mpr htext
  rw [show (run .standard source Sink.perfect).result = _ from hresult] at hs
  cases hs

end Pass

end GlyphRebase
