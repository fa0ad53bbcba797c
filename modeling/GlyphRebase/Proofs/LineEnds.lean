import GlyphRebase.Proofs.PassOverLines
import Mathlib.Data.List.Chain

/-!
# Line ends

A line ends in a line feed, in a carriage return, or in both in this order, and it makes no
difference in which. Any bytes are unbroken, or begin with a line, its end and further bytes
(`exists_lineEnd`), and then the lines of the bytes are this line and the lines of what follows
(`linesOf_ended`). All else is an induction along this (`lines_induction`): lines that are joined
with any ends are found again, no line holds a terminator, and ends may be exchanged, or one be
added at the very end, without a change in the lines (`Source.lines_of_line_ends`).

What is ambiguous is a carriage return in front of an empty line that a line feed ends.
-/

namespace GlyphRebase

/-- The ways in which a line ends. -/
inductive LineEnd where
  /-- In a line feed. -/
  | lf
  /-- In a carriage return. -/
  | cr
  /-- In a carriage return and a line feed. -/
  | crlf
  deriving DecidableEq, Repr

namespace LineEnd

/-- The bytes that end the line. -/
def bytes : LineEnd → List UInt8
  | lf => [lineFeed]
  | cr => [carriageReturn]
  | crlf => [carriageReturn, lineFeed]

/-- The end of a line is complete before what follows. -/
def EndsBefore (e : LineEnd) (rest : List UInt8) : Prop := e = cr → rest.head? ≠ some lineFeed

theorem endsBefore_nil (e : LineEnd) : e.EndsBefore [] := fun _ => nofun

theorem length_bytes_pos (e : LineEnd) : 0 < e.bytes.length := by
  cases e <;> exact Nat.zero_lt_succ _

/-- The end of a line is made of terminators. -/
theorem endsLine_of_mem {e : LineEnd} {b : UInt8} (h : b ∈ e.bytes) : endsLine b = true := by
  cases e <;> simp only [bytes, List.mem_cons, List.not_mem_nil, or_false] at h
  · subst h
    rfl
  · subst h
    rfl
  · rcases h with rfl | rfl <;> rfl

end LineEnd

section
variable {text rest : List UInt8} {e : LineEnd}

/-- Bytes are unbroken, or begin with a line and its end. -/
theorem exists_lineEnd (bytes : List UInt8) :
    Unbroken bytes ∨ ∃ text e rest, Unbroken text ∧ LineEnd.EndsBefore e rest ∧
      bytes = text ++ (e.bytes ++ rest) := by
  obtain ⟨text, ht, rfl | rfl | ⟨bs, rfl⟩ | ⟨c, cs, rfl⟩⟩ := exists_unbroken bytes
  · exact .inl ht
  · exact .inr ⟨text, .cr, [], ht, LineEnd.endsBefore_nil _, rfl⟩
  · exact .inr ⟨text, .lf, bs, ht, nofun, rfl⟩
  · by_cases hc : c = lineFeed
    · subst hc
      exact .inr ⟨text, .crlf, cs, ht, nofun, rfl⟩
    · refine .inr ⟨text, .cr, c :: cs, ht, fun _ => ?_, rfl⟩
      simpa using hc

/-- What holds of unbroken bytes, and of a line with its end if it holds of what follows, holds of
all bytes. -/
@[elab_as_elim]
theorem lines_induction {motive : List UInt8 → Prop}
    (unbroken : ∀ text, Unbroken text → motive text)
    (ended : ∀ text e rest, Unbroken text → LineEnd.EndsBefore e rest → motive rest →
      motive (text ++ (e.bytes ++ rest))) (bytes : List UInt8) : motive bytes := by
  induction hlen : bytes.length using Nat.strongRecOn generalizing bytes with
  | ind len ih =>
    obtain ht | ⟨text, e, rest, ht, he, rfl⟩ := exists_lineEnd bytes
    · exact unbroken bytes ht
    · refine ended text e rest ht he (ih rest.length ?_ rest rfl)
      have := e.length_bytes_pos
      rw [← hlen, List.length_append, List.length_append]
      omega

/-! ### One line more -/

theorem linesOf_nil : linesOf [] = [] := linesOf_eq_nil_iff.mpr rfl

theorem linesOf_unbroken (ht : Unbroken text) (hne : text ≠ []) : linesOf text = [text] := by
  rw [linesOf, completeLines_of_none (cutLine_unbroken ht), openEnd_of_none (cutLine_unbroken ht),
    lastLine, if_neg hne, if_neg ht.getLast?_ne]
  rfl

theorem linesOf_of_cutLine {bytes line : List UInt8} (h : cutLine bytes = some (line, rest)) :
    linesOf bytes = line :: linesOf rest := by
  rw [linesOf, completeLines_of_some h, openEnd_of_some h]
  rfl

/-- A line that ends is the first of the lines, and those of what follows come after it. -/
theorem linesOf_ended (ht : Unbroken text) (he : e.EndsBefore rest) :
    linesOf (text ++ (e.bytes ++ rest)) = text :: linesOf rest := by
  cases e with
  | lf => exact linesOf_of_cutLine (cutLine_lineFeed ht rest)
  | crlf =>
    apply linesOf_of_cutLine
    show cutLine (text ++ carriageReturn :: lineFeed :: rest) = _
    rw [cutLine_return_cons ht, if_pos rfl]
  | cr =>
    cases rest with
    | nil =>
      -- the carriage return settles nothing by itself; the end of the bytes does
      have hnone := cutLine_return ht
      show linesOf (text ++ [carriageReturn]) = _
      rw [linesOf, completeLines_of_none hnone, openEnd_of_none hnone, lastLine, if_neg (by simp),
        if_pos (List.getLast?_concat ..), List.dropLast_concat, linesOf_nil]
      rfl
    | cons c cs =>
      have hc : c ≠ lineFeed := by simpa using he rfl
      apply linesOf_of_cutLine
      show cutLine (text ++ carriageReturn :: c :: cs) = _
      rw [cutLine_return_cons ht, if_neg hc]

/-- No line holds a terminator. -/
theorem unbroken_of_mem_linesOf {bytes line : List UInt8} (h : line ∈ linesOf bytes) :
    Unbroken line := by
  induction bytes using lines_induction with
  | unbroken text ht =>
    by_cases hne : text = []
    · rw [hne, linesOf_nil] at h
      cases h
    · rw [linesOf_unbroken ht hne, List.mem_singleton] at h
      exact h ▸ ht
  | ended text e rest ht he ih =>
    rw [linesOf_ended ht he, List.mem_cons] at h
    rcases h with rfl | h
    · exact ht
    · exact ih h

end

/-! ### Joining lines -/

/-- Lines with their ends in a row, and a last line without one unless it is empty. -/
def joined (ended : List (List UInt8 × LineEnd)) (last : List UInt8) : List UInt8 :=
  ended.flatMap (fun p => p.1 ++ p.2.bytes) ++ last

/-- The lines that are joined. -/
def joinedLines (ended : List (List UInt8 × LineEnd)) (last : List UInt8) : List (List UInt8) :=
  ended.map Prod.fst ++ if last = [] then [] else [last]

/-- A line that ends in a carriage return does not stand in front of an empty line that ends in a
line feed. -/
def Apart (p q : List UInt8 × LineEnd) : Prop := p.2 = .cr → q ≠ ([], .lf)

theorem Unbroken.head?_ne {text : List UInt8} (h : Unbroken text) : text.head? ≠ some lineFeed :=
  fun e => absurd (h _ (List.mem_of_head? e)) (by decide)

/-- **Joined lines are found again.** -/
theorem linesOf_joined {ended : List (List UInt8 × LineEnd)} {last : List UInt8}
    (hended : ∀ p ∈ ended, Unbroken p.1) (hlast : Unbroken last) (hapart : ended.IsChain Apart) :
    linesOf (joined ended last) = joinedLines ended last := by
  induction ended with
  | nil =>
    by_cases hne : last = []
    · rw [hne]
      exact linesOf_nil
    · rw [joined, joinedLines, if_neg hne]
      exact linesOf_unbroken hlast hne
  | cons p ended ih =>
    obtain ⟨text, e⟩ := p
    obtain ⟨ht, hrest⟩ := List.forall_mem_cons.mp hended
    have hjoined : joined ((text, e) :: ended) last = text ++ (e.bytes ++ joined ended last) := by
      simp [joined]
    have he : e.EndsBefore (joined ended last) := by
      intro hcr
      cases ended with
      | nil => exact hlast.head?_ne
      | cons q ended =>
        obtain ⟨text', e'⟩ := q
        have hq : (text', e') ≠ ([], .lf) := (List.isChain_cons_cons.mp hapart).1 hcr
        have ht' : Unbroken text' := hrest _ (List.mem_cons_self ..)
        cases text' with
        | cons b text' =>
          have hhead : (b :: text').head? ≠ some lineFeed := ht'.head?_ne
          exact hhead
        | nil =>
          cases e' with
          | lf => exact absurd rfl hq
          | cr | crlf =>
            show some carriageReturn ≠ some lineFeed
            decide
    have hapart' : ended.IsChain Apart := by
      cases ended with
      | nil => exact .nil
      | cons q ended => exact (List.isChain_cons_cons.mp hapart).2
    rw [hjoined, linesOf_ended ht he, ih hrest hapart']
    rfl

/-! ### Exchanging line ends -/

/-- The bytes with a line feed for every end of a line. -/
def withLineFeeds : List UInt8 → List UInt8
  | [] => []
  | b :: bs =>
    if b = carriageReturn then
      match bs with
      | [] => [lineFeed]
      | c :: cs => lineFeed :: if c = lineFeed then withLineFeeds cs else withLineFeeds (c :: cs)
    else b :: withLineFeeds bs

theorem withLineFeeds_cons_of_ne {b : UInt8} (hb : b ≠ carriageReturn) (bs : List UInt8) :
    withLineFeeds (b :: bs) = b :: withLineFeeds bs := by
  rw [withLineFeeds.eq_def]
  exact if_neg hb

theorem withLineFeeds_append {text : List UInt8} (ht : Unbroken text) (rest : List UInt8) :
    withLineFeeds (text ++ rest) = text ++ withLineFeeds rest := by
  induction text with
  | nil => rfl
  | cons b text ih =>
    obtain ⟨hb, htext⟩ := unbroken_cons_iff.mp ht
    rw [List.cons_append, withLineFeeds_cons_of_ne hb.2, ih htext]
    rfl

theorem withLineFeeds_lineEnd {e : LineEnd} {rest : List UInt8} (he : e.EndsBefore rest) :
    withLineFeeds (e.bytes ++ rest) = lineFeed :: withLineFeeds rest := by
  cases e with
  | lf => exact withLineFeeds_cons_of_ne (by decide) rest
  | crlf => rfl
  | cr =>
    cases rest with
    | nil => rfl
    | cons c cs =>
      have hc : c ≠ lineFeed := by simpa using he rfl
      show (lineFeed :: if c = lineFeed then withLineFeeds cs else withLineFeeds (c :: cs)) = _
      rw [if_neg hc]

/-- With a line feed for every end the lines are the same. -/
theorem linesOf_withLineFeeds (bytes : List UInt8) :
    linesOf (withLineFeeds bytes) = linesOf bytes := by
  induction bytes using lines_induction with
  | unbroken text ht =>
    have h := withLineFeeds_append ht []
    rw [List.append_nil] at h
    rw [h]
    exact congrArg linesOf (List.append_nil text)
  | ended text e rest ht he ih =>
    rw [withLineFeeds_append ht, withLineFeeds_lineEnd he, linesOf_ended ht he, ← ih]
    exact linesOf_ended (e := .lf) ht nofun

/-- The bytes hold something, and do not end in a terminator. -/
def LastLineOpen (bytes : List UInt8) : Prop := ∃ b, bytes.getLast? = some b ∧ endsLine b = false

/-- A line feed may be added to a last line that has no end. -/
theorem linesOf_append_lineFeed {bytes : List UInt8} (h : LastLineOpen bytes) :
    linesOf (bytes ++ [lineFeed]) = linesOf bytes := by
  induction bytes using lines_induction with
  | unbroken text ht =>
    have hne : text ≠ [] := by
      rintro rfl
      obtain ⟨b, hb, -⟩ := h
      cases hb
    rw [linesOf_unbroken ht hne]
    exact (linesOf_ended (e := .lf) ht nofun).trans (by rw [linesOf_nil])
  | ended text e rest ht he ih =>
    obtain ⟨b, hb, hopen⟩ := h
    rw [List.getLast?_append, List.getLast?_append] at hb
    cases rest with
    | nil =>
      -- then the last byte belongs to the end of the line
      have hlast : e.bytes.getLast? = some b := by cases e <;> exact hb
      rw [LineEnd.endsLine_of_mem (List.mem_of_getLast? hlast)] at hopen
      cases hopen
    | cons c cs =>
      have hopen' : LastLineOpen (c :: cs) := by
        refine ⟨b, ?_, hopen⟩
        rw [List.getLast?_cons] at hb ⊢
        exact hb
      have he' : e.EndsBefore (c :: cs ++ [lineFeed]) := fun hcr => he hcr
      rw [List.append_assoc, List.append_assoc, linesOf_ended ht he', linesOf_ended ht he,
        ih hopen']

/-! ### Lines of a source -/

/-- A text whose bytes are unbroken holds none of the characters that end a line. -/
theorem Unbroken.not_mem_toList {text : String} (h : Unbroken (Utf8.encode text)) :
    '\n' ∉ text.toList ∧ '\r' ∉ text.toList := by
  have hmem {c : Char} {b : UInt8} (hb : b ∈ String.utf8EncodeChar c) (hc : c ∈ text.toList) :
      endsLine b = false := h b (List.mem_flatMap.mpr ⟨c, hc, hb⟩)
  exact ⟨fun hc => absurd (hmem (b := lineFeed) (by decide) hc) (by decide),
    fun hc => absurd (hmem (b := carriageReturn) (by decide) hc) (by decide)⟩

namespace Source

/-- **Line ends make no difference.** Lines without a terminator that are joined with whatever ends,
the last one also without any, are read again as they were, if none that ends in a carriage return
stands in front of an empty one that ends in a line feed. And whatever bytes are read, no line holds
a terminator; with a line feed for every end of a line, or with a line feed added where the last
line has no end, the lines are the same, and so is every pass over them. -/
theorem lines_of_line_ends :
    (∀ ended last (s : Source), (∀ p ∈ ended, Unbroken p.1) → Unbroken last →
      ended.IsChain Apart → s.Delivers (joined ended last) →
      s.lines = (joinedLines ended last).map lineText ∧
      ∀ texts : List String, joinedLines ended last = texts.map Utf8.encode →
        s.lines = texts.map .ok) ∧
    ∀ bytes (s : Source), s.Delivers bytes →
      (∀ text, .ok text ∈ s.lines → '\n' ∉ text.toList ∧ '\r' ∉ text.toList) ∧
      ∀ s' : Source, s'.Delivers (withLineFeeds bytes) ∨
          LastLineOpen bytes ∧ s'.Delivers (bytes ++ [lineFeed]) →
        s'.lines = s.lines ∧
        ∀ rules (sink : Sink), (Pass.run rules s' sink).seen = (Pass.run rules s sink).seen := by
  constructor
  · intro ended last s hended hlast hapart hs
    have hlines : s.lines = (joinedLines ended last).map lineText := by
      rw [lines_of_delivers hs, linesOf_joined hended hlast hapart]
    refine ⟨hlines, fun texts htexts => ?_⟩
    rw [hlines, htexts, map_lineText_encode]
  · intro bytes s hs
    have hlines := lines_of_delivers hs
    constructor
    · intro text htext
      rw [hlines] at htext
      obtain ⟨line, hline, heq⟩ := List.mem_map.mp htext
      apply Unbroken.not_mem_toList
      rw [lineText_eq_ok_iff.mp heq]
      exact unbroken_of_mem_linesOf hline
    · intro s' hs'
      have hsame : s'.lines = s.lines := by
        rcases hs' with hs' | ⟨hopen, hs'⟩
        · rw [hlines, lines_of_delivers hs', linesOf_withLineFeeds]
        · rw [hlines, lines_of_delivers hs', linesOf_append_lineFeed hopen]
      exact ⟨hsame, fun rules sink => Pass.run_seen_of_same_lines hsame rules sink⟩

/-- All three ends, an empty line among them, and a last line without an end; the bytes come in
chunks that are cut between a carriage return and its line feed. -/
theorem lines_of_line_ends_mixed :
    let table : List (List UInt8 × LineEnd) := [(Utf8.encode "49200, /* (0xC030) */", .cr),
      ([], .crlf), (Utf8.encode "512, /* (0x0200) */", .lf)]
    let last := Utf8.encode "7, /* (0x7) */"
    let source : Source := ⟨[], [.chunk (Utf8.encode "49200, /* (0xC030) */\r\r"),
      .chunk (Utf8.encode "\n512, /* (0x0200) */\n7, /* (0x7) */")]⟩
    let plain := Source.ofBytes
      (Utf8.encode "49200, /* (0xC030) */\n\n512, /* (0x0200) */\n7, /* (0x7) */")
    let ended := Source.ofBytes (joined table last ++ [lineFeed])
    source.lines = [.ok "49200, /* (0xC030) */", .ok "", .ok "512, /* (0x0200) */",
        .ok "7, /* (0x7) */"] ∧
      plain.lines = source.lines ∧ ended.lines = source.lines ∧
      (Pass.run .standard plain Sink.perfect).seen =
        (Pass.run .standard source Sink.perfect).seen ∧
      (Pass.run .standard ended Sink.perfect).seen =
        (Pass.run .standard source Sink.perfect).seen := by
  intro table last source plain ended
  have hsource : source.Delivers (joined table last) :=
    ⟨[Utf8.encode "49200, /* (0xC030) */\r\r",
      Utf8.encode "\n512, /* (0x0200) */\n7, /* (0x7) */"], by decide +kernel, rfl,
      by decide +kernel⟩
  have hplain : plain.Delivers (withLineFeeds (joined table last)) := by
    have h : withLineFeeds (joined table last) =
        Utf8.encode "49200, /* (0xC030) */\n\n512, /* (0x0200) */\n7, /* (0x7) */" := by
      decide +kernel
    rw [h]
    exact delivers_ofBytes _
  have hopen : LastLineOpen (joined table last) := ⟨0x2F, by decide +kernel, rfl⟩
  have hunbroken : (∀ p ∈ table, Unbroken p.1) ∧ Unbroken last := by
    unfold Unbroken
    decide +kernel
  have hapart : table.IsChain Apart := by
    simp [table, Apart]
  obtain ⟨hjoined, hexchanged⟩ := lines_of_line_ends
  obtain ⟨-, htexts⟩ := hjoined table last source hunbroken.1 hunbroken.2 hapart hsource
  obtain ⟨-, hsame⟩ := hexchanged _ source hsource
  obtain ⟨hlines, hpass⟩ := hsame plain (.inl hplain)
  obtain ⟨hlines', hpass'⟩ := hsame ended (.inr ⟨hopen, delivers_ofBytes _⟩)
  refine ⟨?_, hlines, hlines', hpass _ _, hpass' _ _⟩
  exact htexts ["49200, /* (0xC030) */", "", "512, /* (0x0200) */", "7, /* (0x7) */"]
    (by decide +kernel)

end Source

end GlyphRebase
