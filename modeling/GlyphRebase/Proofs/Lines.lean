import GlyphRebase.Proofs.Utf8
import GlyphRebase.Stream.Lines

/-!
# The lines of given bytes

What the lines of a text of bytes are, without regard to how the bytes arrive. `cutLine` takes off
the first line whose end is settled: at a line feed, at a carriage return and a line feed, or at a
carriage return before any other byte. `completeLines` are the lines that can be taken off so, and
`openEnd` is what remains; if the bytes end there, `lastLine` tells what becomes of it.

A source looks for the end of a line portion by portion. What it finds is what `cutLine` finds in
the bytes held and the portion together (`cutLine_of_cut_line`, `cutLine_of_cut_more`).
-/

namespace GlyphRebase

/-- What follows a terminator of which the carriage return has been seen. Nothing settles it but
the next byte. -/
def afterReturn : List UInt8 → Option (List UInt8)
  | [] => none
  | c :: cs => some (if c = lineFeed then cs else c :: cs)

/-- The first line whose end is settled, and what follows its terminator. -/
def cutLine : List UInt8 → Option (List UInt8 × List UInt8)
  | [] => none
  | b :: bs =>
    if b = lineFeed then some ([], bs)
    else if b = carriageReturn then (afterReturn bs).map fun rest => ([], rest)
    else (cutLine bs).map fun p => (b :: p.1, p.2)

/-- The bytes hold no terminator. -/
def Unbroken (text : List UInt8) : Prop := ∀ b ∈ text, endsLine b = false

theorem endsLine_eq_false_iff {b : UInt8} :
    endsLine b = false ↔ b ≠ lineFeed ∧ b ≠ carriageReturn := by
  simp [endsLine]

theorem Unbroken.nil : Unbroken [] := fun _ h => absurd h List.not_mem_nil

theorem unbroken_cons_iff {b : UInt8} {text : List UInt8} :
    Unbroken (b :: text) ↔ (b ≠ lineFeed ∧ b ≠ carriageReturn) ∧ Unbroken text := by
  rw [← endsLine_eq_false_iff, Unbroken, List.forall_mem_cons, Unbroken]

theorem Unbroken.append {s t : List UInt8} (hs : Unbroken s) (ht : Unbroken t) :
    Unbroken (s ++ t) := fun b hb => (List.mem_append.mp hb).elim (hs b) (ht b)

/-- A byte is a terminator, the beginning of one, or neither. -/
theorem terminator_cases (b : UInt8) :
    b = lineFeed ∨ b = carriageReturn ∨ (b ≠ lineFeed ∧ b ≠ carriageReturn) := by
  by_cases hlf : b = lineFeed
  · exact .inl hlf
  · by_cases hcr : b = carriageReturn
    · exact .inr (.inl hcr)
    · exact .inr (.inr ⟨hlf, hcr⟩)

/-- Bytes are unbroken up to their first terminator, of which a carriage return at the end may be
the whole or a part. -/
theorem exists_unbroken (bytes : List UInt8) :
    ∃ text, Unbroken text ∧
      (bytes = text ∨ bytes = text ++ [carriageReturn] ∨ (∃ bs, bytes = text ++ lineFeed :: bs) ∨
        ∃ c cs, bytes = text ++ carriageReturn :: c :: cs) := by
  induction bytes with
  | nil => exact ⟨[], .nil, .inl rfl⟩
  | cons b bs ih =>
    obtain rfl | rfl | hb := terminator_cases b
    · exact ⟨[], .nil, .inr (.inr (.inl ⟨bs, rfl⟩))⟩
    · cases bs with
      | nil => exact ⟨[], .nil, .inr (.inl rfl)⟩
      | cons c cs => exact ⟨[], .nil, .inr (.inr (.inr ⟨c, cs, rfl⟩))⟩
    · obtain ⟨text, ht, rfl | rfl | ⟨bs, rfl⟩ | ⟨c, cs, rfl⟩⟩ := ih
      · exact ⟨b :: _, unbroken_cons_iff.mpr ⟨hb, ht⟩, .inl rfl⟩
      · exact ⟨b :: _, unbroken_cons_iff.mpr ⟨hb, ht⟩, .inr (.inl rfl)⟩
      · exact ⟨b :: _, unbroken_cons_iff.mpr ⟨hb, ht⟩, .inr (.inr (.inl ⟨bs, rfl⟩))⟩
      · exact ⟨b :: _, unbroken_cons_iff.mpr ⟨hb, ht⟩, .inr (.inr (.inr ⟨c, cs, rfl⟩))⟩

/-! ### Taking off a line -/

section
variable {text : List UInt8} (h : Unbroken text)
include h

/-- Bytes without a terminator in front belong to the line. -/
theorem cutLine_append (bs : List UInt8) :
    cutLine (text ++ bs) = (cutLine bs).map fun p => (text ++ p.1, p.2) := by
  induction text with
  | nil => simp
  | cons b text ih =>
    obtain ⟨hb, ht⟩ := unbroken_cons_iff.mp h
    rw [List.cons_append, cutLine, if_neg hb.1, if_neg hb.2, ih ht, Option.map_map]
    rfl

theorem cutLine_unbroken : cutLine text = none := by
  have := cutLine_append h []
  rwa [List.append_nil] at this

theorem cutLine_return : cutLine (text ++ [carriageReturn]) = none := by
  rw [cutLine_append h]
  rfl

theorem cutLine_lineFeed (bs : List UInt8) :
    cutLine (text ++ lineFeed :: bs) = some (text, bs) := by
  rw [cutLine_append h, cutLine, if_pos rfl]
  simp

theorem cutLine_return_cons (c : UInt8) (cs : List UInt8) :
    cutLine (text ++ carriageReturn :: c :: cs) =
      some (text, if c = lineFeed then cs else c :: cs) := by
  rw [cutLine_append h, cutLine, if_neg (by decide), if_pos rfl]
  simp [afterReturn]

end

/-- No end of a line is settled in bytes without a terminator, but for a carriage return at the
end. -/
theorem cutLine_eq_none_iff {bytes : List UInt8} :
    cutLine bytes = none ↔
      ∃ text, Unbroken text ∧ (bytes = text ∨ bytes = text ++ [carriageReturn]) := by
  constructor
  · intro h
    obtain ⟨text, ht, rfl | rfl | ⟨bs, rfl⟩ | ⟨c, cs, rfl⟩⟩ := exists_unbroken bytes
    · exact ⟨bytes, ht, .inl rfl⟩
    · exact ⟨text, ht, .inr rfl⟩
    · rw [cutLine_lineFeed ht] at h
      cases h
    · rw [cutLine_return_cons ht] at h
      cases h
  · rintro ⟨text, ht, rfl | rfl⟩
    · exact cutLine_unbroken ht
    · exact cutLine_return ht

/-- A line is taken off with its terminator. -/
theorem cutLine_eq_some {bytes line rest : List UInt8} (h : cutLine bytes = some (line, rest)) :
    Unbroken line ∧ (bytes = line ++ lineFeed :: rest ∨
      bytes = line ++ carriageReturn :: lineFeed :: rest ∨
      ∃ c cs, c ≠ lineFeed ∧ rest = c :: cs ∧ bytes = line ++ carriageReturn :: rest) := by
  obtain ⟨text, ht, rfl | rfl | ⟨bs, rfl⟩ | ⟨c, cs, rfl⟩⟩ := exists_unbroken bytes
  · rw [cutLine_unbroken ht] at h
    cases h
  · rw [cutLine_return ht] at h
    cases h
  · rw [cutLine_lineFeed ht] at h
    cases h
    exact ⟨ht, .inl rfl⟩
  · rw [cutLine_return_cons ht] at h
    split at h
    · next hc =>
      cases h
      exact ⟨ht, .inr (.inl (by rw [hc]))⟩
    · next hc =>
      cases h
      exact ⟨ht, .inr (.inr ⟨c, cs, hc, rfl, rfl⟩)⟩

/-- The end of a line stays settled, whatever follows. -/
theorem cutLine_append_of_some {bytes line rest : List UInt8}
    (h : cutLine bytes = some (line, rest)) (more : List UInt8) :
    cutLine (bytes ++ more) = some (line, rest ++ more) := by
  obtain ⟨ht, rfl | rfl | ⟨c, cs, hc, rfl, rfl⟩⟩ := cutLine_eq_some h
  · rw [List.append_assoc, List.cons_append, cutLine_lineFeed ht]
  · rw [List.append_assoc, List.cons_append, List.cons_append, cutLine_return_cons ht, if_pos rfl]
  · rw [List.append_assoc, List.cons_append, List.cons_append, cutLine_return_cons ht, if_neg hc]

/-- A line and its terminator are taken off, so less remains. -/
theorem length_lt_of_cutLine {bytes line rest : List UInt8}
    (h : cutLine bytes = some (line, rest)) : rest.length < bytes.length := by
  obtain ⟨-, rfl | rfl | ⟨c, cs, -, -, rfl⟩⟩ := cutLine_eq_some h <;>
    simp only [List.length_append, List.length_cons] <;> omega

/-! ### All lines -/

/-- The lines whose ends are settled. -/
def completeLines (bytes : List UInt8) : List (List UInt8) :=
  match _h : cutLine bytes with
  | none => []
  | some (line, rest) => line :: completeLines rest
termination_by bytes.length
decreasing_by exact length_lt_of_cutLine _h

/-- What follows the lines whose ends are settled. -/
def openEnd (bytes : List UInt8) : List UInt8 :=
  match _h : cutLine bytes with
  | none => bytes
  | some (_, rest) => openEnd rest
termination_by bytes.length
decreasing_by exact length_lt_of_cutLine _h

/-- The line that an open end comes to when nothing follows, if it comes to any. -/
def lastLine (rest : List UInt8) : List (List UInt8) :=
  if rest = [] then []
  else if rest.getLast? = some carriageReturn then [rest.dropLast]
  else [rest]

/-- The lines of bytes that end. -/
def linesOf (bytes : List UInt8) : List (List UInt8) :=
  completeLines bytes ++ lastLine (openEnd bytes)

theorem completeLines_of_none {bytes : List UInt8} (h : cutLine bytes = none) :
    completeLines bytes = [] := by
  rw [completeLines]
  split
  · rfl
  · next h' => rw [h] at h'; cases h'

theorem completeLines_of_some {bytes line rest : List UInt8}
    (h : cutLine bytes = some (line, rest)) :
    completeLines bytes = line :: completeLines rest := by
  rw [completeLines]
  split
  · next h' => rw [h] at h'; cases h'
  · next h' => rw [h] at h'; cases h'; rfl

theorem openEnd_of_none {bytes : List UInt8} (h : cutLine bytes = none) :
    openEnd bytes = bytes := by
  rw [openEnd]
  split
  · rfl
  · next h' => rw [h] at h'; cases h'

theorem openEnd_of_some {bytes line rest : List UInt8} (h : cutLine bytes = some (line, rest)) :
    openEnd bytes = openEnd rest := by
  rw [openEnd]
  split
  · next h' => rw [h] at h'; cases h'
  · next h' => rw [h] at h'; cases h'; rfl

/-- Only what holds no byte has no line. -/
theorem linesOf_eq_nil_iff {bytes : List UInt8} : linesOf bytes = [] ↔ bytes = [] := by
  constructor
  · intro h
    obtain ⟨hcomplete, hlast⟩ := List.append_eq_nil_iff.mp h
    cases hcut : cutLine bytes with
    | some p =>
      rw [completeLines_of_some hcut] at hcomplete
      cases hcomplete
    | none =>
      rw [openEnd_of_none hcut, lastLine] at hlast
      by_contra hne
      rw [if_neg hne] at hlast
      split at hlast <;> cases hlast
  · rintro rfl
    rw [linesOf, completeLines_of_none rfl, openEnd_of_none rfl]
    rfl

/-- Mixed terminators, and a last line that a carriage return ends. -/
example : linesOf [0x61, 0x0D, 0x0A, 0x0D, 0x62, 0x0A, 0x63, 0x0D] =
    [[0x61], [], [0x62], [0x63]] := by
  decide +kernel

/-! ### What a source finds in a portion -/

section
variable {held text : List UInt8}

theorem Unbroken.getLast?_ne (h : Unbroken held) : held.getLast? ≠ some carriageReturn := fun e =>
  absurd (h _ (List.mem_of_getLast? e)) (by decide)

theorem Unbroken.takeWhile_append (h : Unbroken text) (tail : List UInt8) :
    (text ++ tail).takeWhile (!endsLine ·) = text ++ tail.takeWhile (!endsLine ·) :=
  List.takeWhile_append_of_pos fun b hb => by rw [h b hb]; rfl

theorem Unbroken.dropWhile_append (h : Unbroken text) (tail : List UInt8) :
    (text ++ tail).dropWhile (!endsLine ·) = tail.dropWhile (!endsLine ·) :=
  List.dropWhile_append_of_pos fun b hb => by rw [h b hb]; rfl

namespace Source

/-- A carriage return is held back: the next byte settles what follows it. -/
theorem cut_held_return (held : List UInt8) (c : UInt8) (cs : List UInt8) :
    cut (held ++ [carriageReturn]) (c :: cs) = .line held (if c = lineFeed then 1 else 0) := by
  rw [cut, if_pos (List.getLast?_concat ..)]
  simp

theorem cut_unbroken (hheld : Unbroken held) (h : Unbroken text) :
    cut held text = .more (held ++ text) := by
  have hd := h.dropWhile_append []
  rw [List.append_nil] at hd
  rw [cut, if_neg hheld.getLast?_ne, hd]
  rfl

theorem cut_return (hheld : Unbroken held) (h : Unbroken text) :
    cut held (text ++ [carriageReturn]) = .more (held ++ (text ++ [carriageReturn])) := by
  rw [cut, if_neg hheld.getLast?_ne, h.dropWhile_append]
  rfl

theorem cut_lineFeed (hheld : Unbroken held) (h : Unbroken text) (bs : List UInt8) :
    cut held (text ++ lineFeed :: bs) = .line (held ++ text) (text.length + 1) := by
  rw [cut, if_neg hheld.getLast?_ne, h.dropWhile_append, h.takeWhile_append]
  cases bs <;> simp [endsLine, lineFeed, carriageReturn]

theorem cut_return_cons (hheld : Unbroken held) (h : Unbroken text) (c : UInt8)
    (cs : List UInt8) :
    cut held (text ++ carriageReturn :: c :: cs) =
      .line (held ++ text) (text.length + if c = lineFeed then 2 else 1) := by
  rw [cut, if_neg hheld.getLast?_ne, h.dropWhile_append, h.takeWhile_append]
  simp [endsLine]

end Source

end

namespace Source

/-- A portion that completes the line held so far completes it where the bytes held and the
portion together settle the end of a line. -/
theorem cutLine_of_cut_line {held portion line : List UInt8} {used : Nat}
    (hheld : cutLine held = none) (hne : portion ≠ [])
    (h : cut held portion = .line line used) :
    cutLine (held ++ portion) = some (line, portion.drop used) := by
  obtain ⟨kept, hk, rfl | rfl⟩ := cutLine_eq_none_iff.mp hheld
  · obtain ⟨text, ht, rfl | rfl | ⟨bs, rfl⟩ | ⟨c, cs, rfl⟩⟩ := exists_unbroken portion
    · rw [cut_unbroken hk ht] at h
      cases h
    · rw [cut_return hk ht] at h
      cases h
    · rw [cut_lineFeed hk ht] at h
      cases h
      rw [← List.append_assoc, cutLine_lineFeed (hk.append ht), List.drop_length_add_append]
      rfl
    · rw [cut_return_cons hk ht] at h
      cases h
      rw [← List.append_assoc, cutLine_return_cons (hk.append ht), List.drop_length_add_append]
      split <;> rfl
  · cases portion with
    | nil => exact absurd rfl hne
    | cons c cs =>
      rw [cut_held_return] at h
      cases h
      rw [List.append_assoc, List.singleton_append, cutLine_return_cons hk]
      split <;> rfl

/-- A portion that does not complete the line is held, and settles nothing. -/
theorem cutLine_of_cut_more {held portion more : List UInt8} (hheld : cutLine held = none)
    (hne : portion ≠ []) (h : cut held portion = .more more) :
    more = held ++ portion ∧ cutLine more = none := by
  obtain ⟨kept, hk, rfl | rfl⟩ := cutLine_eq_none_iff.mp hheld
  · obtain ⟨text, ht, rfl | rfl | ⟨bs, rfl⟩ | ⟨c, cs, rfl⟩⟩ := exists_unbroken portion
    · rw [cut_unbroken hk ht] at h
      cases h
      exact ⟨rfl, cutLine_unbroken (hk.append ht)⟩
    · rw [cut_return hk ht] at h
      cases h
      refine ⟨rfl, ?_⟩
      rw [← List.append_assoc]
      exact cutLine_return (hk.append ht)
    · rw [cut_lineFeed hk ht] at h
      cases h
    · rw [cut_return_cons hk ht] at h
      cases h
  · cases portion with
    | nil => exact absurd rfl hne
    | cons c cs =>
      rw [cut_held_return] at h
      cases h

end Source

end GlyphRebase
