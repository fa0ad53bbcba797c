import GlyphRebase.Number.Literal
import GlyphRebase.Proofs.Advance
import GlyphRebase.Proofs.Decimal
import GlyphRebase.Proofs.DigitValues

/-!
# Number literals

A literal is decimal digits behind an optional sign, or hexadecimal digits behind `0x` or `0X`. It
stands for a whole number, whatever its size (`Number.Literal`), and a text that is a literal is
read just if that number fits into 64 bits. Other texts are refused, but for those with a sign
between the mark and the hexadecimal digits: `0x-5` is read as minus five, though it is no literal
(`Number.readLiteral_eq_ok_iff`, `Number.readLiteral_signed_mark`).
-/

namespace GlyphRebase

namespace Number

variable {base : Nat} {c mark : Char} {cs : List Char} {n m : Nat} {i j : Int}

/-! ### Digits -/

/-- Some digits of a base, and what they stand for. -/
structure Digits (base : Nat) (cs : List Char) (n : Nat) : Prop where
  ne_nil : cs ≠ []
  digit : ∀ c ∈ cs, (digit? base c).isSome = true
  value : value base cs = n

theorem digits_iff : Digits base cs n ↔
    cs ≠ [] ∧ (cs.all fun c => (digit? base c).isSome) = true ∧ Number.value base cs = n := by
  rw [List.all_eq_true]
  constructor
  · intro h
    exact ⟨h.ne_nil, h.digit, h.value⟩
  · rintro ⟨hne, hdigit, hvalue⟩
    exact ⟨hne, hdigit, hvalue⟩

instance (base : Nat) (cs : List Char) (n : Nat) : Decidable (Digits base cs n) :=
  decidable_of_iff' _ digits_iff

theorem Digits.unique (h : Digits base cs n) (h' : Digits base cs m) : n = m :=
  h.value.symm.trans h'.value

theorem not_digits_of_mem (hc : c ∈ cs) (hdigit : digit? base c = none) : ¬Digits base cs n := by
  intro h
  have := h.digit c hc
  rw [hdigit] at this
  cases this

/-- Digits are read if they stand for no more than the limit. -/
theorem accumulate_eq_ok_iff_digits {limit : Nat} {beyond : Fault} (hbase : 0 < base)
    (hcs : cs ≠ []) :
    accumulate base limit beyond 0 cs = .ok n ↔ Digits base cs n ∧ n ≤ limit := by
  rw [accumulate_eq_ok_iff hbase (Nat.zero_le _)]
  constructor
  · rintro ⟨hdigits, hvalue, hn⟩
    exact ⟨⟨hcs, hdigits, hvalue⟩, hn⟩
  · rintro ⟨h, hn⟩
    exact ⟨h.digit, h.value, hn⟩

theorem readMagnitude_eq_ok_iff_digits (hbase : 0 < base) {k : Int64} :
    readMagnitude base cs = .ok k ↔ ∃ n : Nat, Digits base cs n ∧ k.toInt = n := by
  rw [readMagnitude_eq_ok_iff hbase]
  constructor
  · rintro ⟨hne, hdigits, hvalue⟩
    exact ⟨_, ⟨hne, hdigits, rfl⟩, hvalue⟩
  · rintro ⟨n, h, hk⟩
    exact ⟨h.ne_nil, h.digit, by rw [hk, h.value]⟩

/-! ### Digits behind a sign -/

/-- Digits behind an optional sign. -/
inductive Signed (base : Nat) : List Char → Int → Prop where
  | bare {cs : List Char} {n : Nat} (h : Digits base cs n) : Signed base cs n
  | plus {cs : List Char} {n : Nat} (h : Digits base cs n) : Signed base ('+' :: cs) n
  | minus {cs : List Char} {n : Nat} (h : Digits base cs n) : Signed base ('-' :: cs) (-n)

/-- A sign is a digit of no base. -/
theorem digit?_of_sign (h : c = '+' ∨ c = '-') : digit? base c = none := by
  rcases h with rfl | rfl <;> rfl

theorem signed_minus_iff : Signed base ('-' :: cs) i ↔ ∃ n : Nat, Digits base cs n ∧ i = -n := by
  constructor
  · rintro (h | h | h)
    · exact absurd h (not_digits_of_mem List.mem_cons_self (digit?_of_sign (.inr rfl)))
    · exact ⟨_, h, rfl⟩
  · rintro ⟨n, h, rfl⟩
    exact .minus h

theorem signed_plus_iff : Signed base ('+' :: cs) i ↔ ∃ n : Nat, Digits base cs n ∧ i = n := by
  constructor
  · rintro (h | h | h)
    · exact absurd h (not_digits_of_mem List.mem_cons_self (digit?_of_sign (.inl rfl)))
    · exact ⟨_, h, rfl⟩
  · rintro ⟨n, h, rfl⟩
    exact .plus h

theorem signed_bare_iff (hplus : c ≠ '+') (hminus : c ≠ '-') :
    Signed base (c :: cs) i ↔ ∃ n : Nat, Digits base (c :: cs) n ∧ i = n := by
  constructor
  · rintro (h | h | h)
    · exact ⟨_, h, rfl⟩
    · exact absurd rfl hplus
    · exact absurd rfl hminus
  · rintro ⟨n, h, rfl⟩
    exact .bare h

/-- Digits behind an optional sign stand for one number. -/
theorem Signed.unique (h : Signed base cs i) (h' : Signed base cs j) : i = j := by
  cases cs with
  | nil => cases h with | bare hdigits => exact absurd rfl hdigits.ne_nil
  | cons c cs =>
    by_cases hplus : c = '+'
    · subst hplus
      obtain ⟨n, hdigits, hi⟩ := signed_plus_iff.mp h
      obtain ⟨m, hdigits', hj⟩ := signed_plus_iff.mp h'
      rw [hi, hj, hdigits.unique hdigits']
    by_cases hminus : c = '-'
    · subst hminus
      obtain ⟨n, hdigits, hi⟩ := signed_minus_iff.mp h
      obtain ⟨m, hdigits', hj⟩ := signed_minus_iff.mp h'
      rw [hi, hj, hdigits.unique hdigits']
    · obtain ⟨n, hdigits, hi⟩ := (signed_bare_iff hplus hminus).mp h
      obtain ⟨m, hdigits', hj⟩ := (signed_bare_iff hplus hminus).mp h'
      rw [hi, hj, hdigits.unique hdigits']

/-- Digits behind a minus sign are read down to the least number. -/
theorem readSigned_minus_eq_ok_iff (hbase : 0 < base) {k : Int64} :
    readSigned base ('-' :: cs) = .ok k ↔ ∃ n : Nat, Digits base cs n ∧ k.toInt = -n := by
  have hlimit : Int64.minValue.toInt.natAbs = 9223372036854775808 := rfl
  have hlo := k.le_toInt
  rw [readSigned]
  by_cases hcs : cs = []
  · subst hcs
    simp only [List.isEmpty_nil, if_true, reduceCtorEq, false_iff]
    rintro ⟨n, h, -⟩
    exact h.ne_nil rfl
  rw [if_neg (by simpa using hcs)]
  constructor
  · intro h
    cases hread : accumulate base Int64.minValue.toInt.natAbs .tooSmall 0 cs with
    | error fault =>
      rw [hread] at h
      cases h
    | ok n =>
      rw [hread] at h
      cases h
      obtain ⟨hdigits, hn⟩ := (accumulate_eq_ok_iff_digits hbase hcs).mp hread
      exact ⟨n, hdigits, Int64.toInt_ofInt_of_le (by omega) (by omega)⟩
  · rintro ⟨n, hdigits, hk⟩
    rw [(accumulate_eq_ok_iff_digits hbase hcs).mpr ⟨hdigits, by omega⟩]
    show Except.ok (Int64.ofInt (-n)) = .ok k
    rw [← hk, Int64.ofInt_toInt]

/-- **Digits behind an optional sign are read just if they stand for a number of 64 bits.** -/
theorem readSigned_eq_ok_iff (hbase : 0 < base) {k : Int64} :
    readSigned base cs = .ok k ↔ Signed base cs k.toInt := by
  cases cs with
  | nil =>
    simp only [readSigned, reduceCtorEq, false_iff]
    generalize k.toInt = i
    rintro (h | _ | _)
    exact h.ne_nil rfl
  | cons c cs =>
    by_cases hplus : c = '+'
    · subst hplus
      rw [readSigned, readMagnitude_eq_ok_iff_digits hbase, signed_plus_iff]
    by_cases hminus : c = '-'
    · subst hminus
      rw [readSigned_minus_eq_ok_iff hbase, signed_minus_iff]
    · rw [readSigned_of_ne hplus hminus, readMagnitude_eq_ok_iff_digits hbase,
        signed_bare_iff hplus hminus]

/-! ### Literals -/

/-- What a literal stands for: a whole number, whatever its size. -/
inductive Literal : List Char → Int → Prop where
  | decimal {cs : List Char} {i : Int} (h : Signed 10 cs i) : Literal cs i
  | hexadecimal {mark : Char} {cs : List Char} {n : Nat} (hmark : mark = 'x' ∨ mark = 'X')
      (h : Digits 16 cs n) : Literal ('0' :: mark :: cs) n

/-- Hexadecimal digits with a sign between them and their mark. -/
inductive SignedMark : List Char → Int → Prop where
  | plus {mark : Char} {cs : List Char} {n : Nat} (hmark : mark = 'x' ∨ mark = 'X')
      (h : Digits 16 cs n) : SignedMark ('0' :: mark :: '+' :: cs) n
  | minus {mark : Char} {cs : List Char} {n : Nat} (hmark : mark = 'x' ∨ mark = 'X')
      (h : Digits 16 cs n) : SignedMark ('0' :: mark :: '-' :: cs) (-n)

/-- A mark is no part of a decimal number. -/
theorem not_signed_of_mark (hmark : mark = 'x' ∨ mark = 'X') :
    ¬Signed 10 ('0' :: mark :: cs) i := by
  rw [signed_bare_iff (by decide) (by decide)]
  rintro ⟨n, h, -⟩
  refine not_digits_of_mem (c := mark) (by simp) ?_ h
  rcases hmark with rfl | rfl <;> rfl

theorem literal_mark_iff (hmark : mark = 'x' ∨ mark = 'X') :
    Literal ('0' :: mark :: cs) i ↔ ∃ n : Nat, Digits 16 cs n ∧ i = n := by
  constructor
  · rintro (h | ⟨-, h⟩)
    · exact absurd h (not_signed_of_mark hmark)
    · exact ⟨_, h, rfl⟩
  · rintro ⟨n, h, rfl⟩
    exact .hexadecimal hmark h

theorem Literal.unique (h : Literal cs i) (h' : Literal cs j) : i = j := by
  cases h with
  | decimal h =>
    cases h' with
    | decimal h' => exact h.unique h'
    | hexadecimal hmark _ => exact absurd h (not_signed_of_mark hmark)
  | hexadecimal hmark h =>
    obtain ⟨m, hdigits, rfl⟩ := (literal_mark_iff hmark).mp h'
    rw [h.unique hdigits]

/-- Nothing with a sign behind its mark is a literal. -/
theorem SignedMark.not_literal (h : SignedMark cs i) : ¬Literal cs j := by
  cases h with
  | plus hmark _ =>
    rw [literal_mark_iff hmark]
    rintro ⟨n, h, -⟩
    exact not_digits_of_mem List.mem_cons_self (digit?_of_sign (.inl rfl)) h
  | minus hmark _ =>
    rw [literal_mark_iff hmark]
    rintro ⟨n, h, -⟩
    exact not_digits_of_mem List.mem_cons_self (digit?_of_sign (.inr rfl)) h

theorem SignedMark.unique (h : SignedMark cs i) (h' : SignedMark cs j) : i = j := by
  cases h with
  | plus _ h => cases h' with | plus _ h' => rw [h.unique h']
  | minus _ h => cases h' with | minus _ h' => rw [h.unique h']

/-- Behind a mark, the sign and the digits of base sixteen are read. -/
theorem signed_of_mark_iff (hmark : mark = 'x' ∨ mark = 'X') :
    Signed 16 cs i ↔ Literal ('0' :: mark :: cs) i ∨ SignedMark ('0' :: mark :: cs) i := by
  rw [literal_mark_iff hmark]
  constructor
  · rintro (h | h | h)
    · exact .inl ⟨_, h, rfl⟩
    · exact .inr (.plus hmark h)
    · exact .inr (.minus hmark h)
  · rintro (⟨n, h, rfl⟩ | ⟨-, h⟩ | ⟨-, h⟩)
    · exact .bare h
    · exact .plus h
    · exact .minus h

/-- **What is read as a number**: a literal, or a text with a sign behind its mark. -/
theorem readLiteral_eq_ok_iff {text : String} {k : Int64} :
    readLiteral text = .ok k ↔ Literal text.toList k.toInt ∨ SignedMark text.toList k.toInt := by
  unfold readLiteral
  split
  · next digits heq =>
    rw [heq, readSigned_eq_ok_iff (by decide), signed_of_mark_iff (.inl rfl)]
  · next digits heq =>
    rw [heq, readSigned_eq_ok_iff (by decide), signed_of_mark_iff (.inr rfl)]
  · next hx hX =>
    rw [readSigned_eq_ok_iff (by decide)]
    generalize text.toList = cs, k.toInt = i at hx hX
    have hmark {mark : Char} {digits : List Char} (h : mark = 'x' ∨ mark = 'X') :
        cs ≠ '0' :: mark :: digits := by
      rcases h with rfl | rfl
      · exact hx digits
      · exact hX digits
    constructor
    · intro h
      exact .inl (.decimal h)
    · rintro (h | h)
      · cases h with
        | decimal h => exact h
        | hexadecimal h => exact absurd rfl (hmark h)
      · cases h with
        | plus h | minus h => exact absurd rfl (hmark h)

/-! ### Hexadecimal texts -/

theorem valueFrom_append (cs ds : List Char) :
    valueFrom base n (cs ++ ds) = valueFrom base (valueFrom base n cs) ds := List.foldl_append

theorem digit?_digitChar {d : Nat} (hd : d < 16) : digit? 16 d.digitChar = some d := by
  have h : ∀ d < 16, digit? 16 d.digitChar = some d := by decide
  exact h d hd

/-- The digits of a number stand for it. -/
theorem digits_toDigits (n : Nat) : Digits 16 (Nat.toDigits 16 n) n := by
  induction n using Nat.strongRecOn with
  | ind n ih =>
    rcases Nat.lt_or_ge n 16 with hn | hn
    · have hdigit := digit?_digitChar hn
      rw [Nat.toDigits_of_lt_base hn]
      exact ⟨by simp, by simp [hdigit], by simp [Number.value, valueFrom, hdigit]⟩
    · have hfront := ih (n / 16) (by omega)
      have hdigit := digit?_digitChar (Nat.mod_lt n (by decide : 0 < 16))
      rw [Nat.toDigits_of_base_le (by decide) hn]
      refine ⟨by simp, ?_, ?_⟩
      · intro c hc
        rcases List.mem_append.mp hc with hc | hc
        · exact hfront.digit c hc
        · rw [List.mem_singleton.mp hc, hdigit]
          rfl
      · rw [Number.value, valueFrom_append, ← Number.value, hfront.value, valueFrom_cons hdigit]
        exact Nat.div_add_mod' n 16

/-- A digit in upper case is the same digit. -/
theorem digit?_toLower (c : Char) : digit? 16 c.toLower = digit? 16 c := by
  by_cases hc : c.val ≥ 'A'.val ∧ c.val ≤ 'Z'.val
  · have hupper : ∀ k < 26, digit? 16 (Char.ofNat (65 + k)).toLower =
        digit? 16 (Char.ofNat (65 + k)) := by decide
    have hlo : 65 ≤ c.toNat := hc.1
    have hhi : c.toNat ≤ 90 := hc.2
    have := hupper (c.toNat - 65) (by omega)
    rwa [show 65 + (c.toNat - 65) = c.toNat by omega, Char.ofNat_toNat] at this
  · have hlower : c.toLower = c := dif_neg hc
    rw [hlower]

/-- Digits stand for the same number in upper case. -/
theorem Digits.of_map_toLower (h : Digits 16 (cs.map Char.toLower) n) : Digits 16 cs n := by
  refine ⟨?_, ?_, ?_⟩
  · rintro rfl
    exact h.ne_nil rfl
  · intro c hc
    rw [← digit?_toLower]
    exact h.digit c.toLower (List.mem_map_of_mem hc)
  · rw [← h.value, Number.value, Number.value, valueFrom, valueFrom, List.foldl_map]
    simp only [digit?_toLower]

end Number

/-! ### What is read as a number -/

theorem Representable.toInt_ofInt {i : Int} (h : Representable i) : (Int64.ofInt i).toInt = i := by
  obtain ⟨hlo, hhi⟩ := h
  rw [Int64.toInt_minValue] at hlo
  rw [Int64.toInt_maxValue] at hhi
  exact Int64.toInt_ofInt_of_le (by omega) (by omega)

namespace Number

/-- **A sign is read behind a mark too**, though nothing of that form is a literal. -/
theorem readLiteral_signed_mark :
    readLiteral "0x-5" = .ok (-5) ∧ ∀ i, ¬Literal "0x-5".toList i := by
  have htext : "0x-5".toList = ['0', 'x', '-', '5'] := by decide +kernel
  have hdigits : Digits 16 ['5'] 5 := by decide +kernel
  have hmark : SignedMark "0x-5".toList (-(5 : Nat)) := htext ▸ .minus (.inl rfl) hdigits
  exact ⟨by decide +kernel, fun i => hmark.not_literal⟩

/-- A number that fits is what it is read as. -/
theorem readLiteral_ofInt_iff {text : String} (hfits : Representable i) :
    readLiteral text = .ok (Int64.ofInt i) ↔ Literal text.toList i ∨ SignedMark text.toList i := by
  rw [readLiteral_eq_ok_iff, hfits.toInt_ofInt]

/-- **Literals are read exactly, or refused.**

A text is read just if it is a literal and its number fits into 64 bits, and as that number, unless
a sign stands behind a mark: such a text is no literal, but is read all the same. Every other text
is refused. So the decimal text of every number is read as that number, and so is the hexadecimal
text of every number that is not negative, in letters of either case. -/
theorem readLiteral_exact (text : String) :
    ((∀ k, readLiteral text = .ok k ↔ Literal text.toList k.toInt) ↔
      ∀ i, SignedMark text.toList i → ¬Representable i) ∧
    ((∃ fault, readLiteral text = .error fault) ↔
      ∀ i, Literal text.toList i ∨ SignedMark text.toList i → ¬Representable i) ∧
    (∀ i, SignedMark text.toList i →
      (∀ j, ¬Literal text.toList j) ∧ ∀ k, readLiteral text = .ok k ↔ k.toInt = i) ∧
    (∀ i j, Literal text.toList i → Literal text.toList j → i = j) ∧
    (∀ k, text = render k → readLiteral text = .ok k) ∧
    ∀ (k : Int64) (mark : Char) (digits : List Char), 0 ≤ k.toInt → (mark = 'x' ∨ mark = 'X') →
      digits.map Char.toLower = Nat.toDigits 16 k.toInt.toNat →
        text = String.ofList ('0' :: mark :: digits) → readLiteral text = .ok k := by
  refine ⟨?_, ?_, ?_, fun i j => Literal.unique, ?_, ?_⟩
  · constructor
    · intro hexact i hmark hfits
      have hread := (readLiteral_ofInt_iff hfits).mpr (.inr hmark)
      exact hmark.not_literal ((hexact _).mp hread)
    · intro hbeyond k
      rw [readLiteral_eq_ok_iff]
      exact or_iff_left fun hmark => hbeyond _ hmark (representable_toInt k)
  · constructor
    · rintro ⟨fault, hfault⟩ i hi hfits
      rw [(readLiteral_ofInt_iff hfits).mpr hi] at hfault
      cases hfault
    · intro hno
      cases htext : readLiteral text with
      | error fault => exact ⟨fault, rfl⟩
      | ok k => exact absurd (representable_toInt k) (hno _ (readLiteral_eq_ok_iff.mp htext))
  · intro i hmark
    refine ⟨fun j => hmark.not_literal, fun k => ?_⟩
    rw [readLiteral_eq_ok_iff, or_iff_right hmark.not_literal]
    constructor
    · intro h
      exact h.unique hmark
    · rintro rfl
      exact hmark
  · rintro k rfl
    rw [readLiteral_eq_ok_iff]
    exact .inl (.decimal ((readSigned_eq_ok_iff (by decide)).mp (readSigned_render k)))
  · rintro k mark digits hk hmark hdigits rfl
    rw [readLiteral_eq_ok_iff, String.toList_ofList, literal_mark_iff hmark]
    have htext : Digits 16 (digits.map Char.toLower) k.toInt.toNat := hdigits ▸ digits_toDigits _
    exact .inl ⟨_, htext.of_map_toLower, by omega⟩

/-- The least and the largest number can be read, and the next one cannot. -/
theorem readLiteral_exact_at_ends :
    readLiteral "-9223372036854775808" = .ok Int64.minValue ∧
      readLiteral "0X7FFFffffFFFFffff" = .ok Int64.maxValue ∧
      (∃ fault, readLiteral "0x8000000000000000" = .error fault) ∧
      readLiteral "0X+1f" = .ok 31 ∧ ∀ i, ¬Literal "0X+1f".toList i := by
  have hlarge : Literal "0x8000000000000000".toList (0x8000000000000000 : Nat) := by
    have htext : "0x8000000000000000".toList = '0' :: 'x' :: '8' :: List.replicate 15 '0' := by
      decide +kernel
    have hdigits : Digits 16 ('8' :: List.replicate 15 '0') 0x8000000000000000 := by
      decide +kernel
    exact htext ▸ .hexadecimal (.inl rfl) hdigits
  have hmark : SignedMark "0X+1f".toList (0x1f : Nat) := by
    have htext : "0X+1f".toList = ['0', 'X', '+', '1', 'f'] := by decide +kernel
    have hdigits : Digits 16 ['1', 'f'] 0x1f := by decide +kernel
    exact htext ▸ .plus (.inr rfl) hdigits
  obtain ⟨-, -, -, -, hdecimal, -⟩ := readLiteral_exact "-9223372036854775808"
  obtain ⟨-, -, -, -, -, hhex⟩ := readLiteral_exact "0X7FFFffffFFFFffff"
  obtain ⟨-, hrefused, -, hunique, -⟩ := readLiteral_exact "0x8000000000000000"
  obtain ⟨-, -, hsigned, -⟩ := readLiteral_exact "0X+1f"
  obtain ⟨hno, hread⟩ := hsigned _ hmark
  refine ⟨hdecimal _ (by decide +kernel), ?_, hrefused.mpr ?_, (hread 31).mpr rfl, hno⟩
  · exact hhex Int64.maxValue 'X' "7FFFffffFFFFffff".toList (by decide) (.inr rfl)
      (by decide +kernel) (by decide +kernel)
  · rintro i (hi | hi) ⟨-, hle⟩
    · rw [hunique i _ hi hlarge] at hle
      exact absurd hle (by decide)
    · exact hi.not_literal hlarge

end Number

end GlyphRebase
