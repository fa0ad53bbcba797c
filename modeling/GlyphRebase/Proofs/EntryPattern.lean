import GlyphRebase.Entry
import GlyphRebase.Proofs.Decimal
import GlyphRebase.Proofs.DigitValues
import GlyphRebase.Proofs.Patterns
import Mathlib.Data.Option.Basic

/-!
# Lines that hold entries

`Entry.pattern` says what a line with an entry starts with: an index of decimal digits, a comma, and
a comment with a code in parentheses, with blanks before them and between their parts. No blank is a
digit, and no digit can be taken for what follows it, so the pattern is settled: a line holds one
index and one code at most, and one scan finds them. `Entry.scan` is this scan
(`Entry.scan_eq_some_iff`), but for the index, which has to be within 64 bits.
-/

namespace GlyphRebase

open Text Number

/-- No blank can be taken for a digit, of whatever base. -/
theorem Text.isBlank_of_between {c : Char} (h : '0' ≤ c ∧ c ≤ 'f') : isBlank c = false := by
  obtain ⟨hlo, hhi⟩ := h
  have hlo : 0x30 ≤ c.toNat := hlo
  have hhi : c.toNat ≤ 0x66 := hhi
  simp only [isBlank, Bool.or_eq_false_iff, Bool.and_eq_false_iff, beq_eq_false_iff_ne,
    decide_eq_false_iff_not]
  omega

namespace Entry

/-- What a line with an entry starts with. Of the two runs the first is the index, and the second
is the code without its `0x`. -/
def pattern : List Part :=
  [.gap isBlank, .run isDecimal, .word [','], .gap isBlank, .word ['/', '*'], .gap isBlank,
    .word ['('], .gap isBlank, .word ['0', 'x'], .run isHex, .gap isBlank, .word [')'],
    .gap isBlank, .word ['*', '/']]

/-- At no place of the pattern a character can belong to what ends there and to what begins. -/
theorem settled_pattern : Settled pattern := by
  have hdecimal (c : Char) (h : isDecimal c = true) : isBlank c = false :=
    isBlank_of_between (between_of_isDecimal h)
  have hblank (c : Char) (h : isBlank c = true) : isHex c = false := by
    rw [Bool.eq_false_iff]
    intro hhex
    rw [isBlank_of_between (between_of_isHex hhex)] at h
    cases h
  apply Settled.gap (startsOutside_run hdecimal)
  apply Settled.run (startsOutside_word (by decide) _)
  apply Settled.word
  apply Settled.gap (startsOutside_word (by decide) _)
  apply Settled.word
  apply Settled.gap (startsOutside_word (by decide) _)
  apply Settled.word
  apply Settled.gap (startsOutside_word (by decide) _)
  apply Settled.word
  apply Settled.run (startsOutside_gap hblank (startsOutside_word (by decide) _))
  apply Settled.gap (startsOutside_word (by decide) _)
  apply Settled.word
  apply Settled.gap (startsOutside_word (by decide) _)
  apply Settled.word
  exact Settled.done

/-! ### The scan of an entry -/

variable {cs : List Char} {e : Entry}

/-- The index that is scanned comes of digits, one at least. -/
theorem index_of_toOption {digits : List Char} {i : Int64}
    (h : (readMagnitude 10 digits).toOption = some i) :
    digits ≠ [] ∧ readMagnitude 10 digits = .ok i := by
  cases hread : readMagnitude 10 digits with
  | error fault =>
    rw [hread] at h
    cases h
  | ok j =>
    rw [hread] at h
    cases h
    exact ⟨((readMagnitude_eq_ok_iff (by decide)).mp hread).1, rfl⟩

/-- An entry that is scanned is made of the two runs of the pattern. -/
theorem scanParts_of_scan (h : scan cs = some e) :
    ∃ digits hex, scanParts pattern cs = some [digits, hex] ∧
      readMagnitude 10 digits = .ok e.index ∧ e.code = String.ofList ('0' :: 'x' :: hex) := by
  simp only [scan, Option.bind_eq_bind, Option.bind_eq_some_iff] at h
  obtain ⟨i, hi, cs₁, h₁, cs₂, h₂, cs₃, h₃, cs₄, h₄, _, hguard, cs₅, h₅, cs₆, h₆, h⟩ := h
  cases h
  obtain ⟨hdigits, hread⟩ := index_of_toOption hi
  have hhex : cs₄.takeWhile isHex ≠ [] := by
    rw [Option.guard_eq_some'] at hguard
    simpa using hguard
  refine ⟨_, cs₄.takeWhile isHex, ?_, hread, rfl⟩
  simp only [skipBlanks] at hdigits h₁ h₂ h₃ h₄ h₅ h₆ ⊢
  simp only [scanParts, pattern, List.isEmpty_iff, hdigits, hhex, if_false, h₁, h₂, h₃, h₄, h₅, h₆,
    Option.bind_some, Option.map_some]

/-- Where the pattern is found, and its first run is an index, there is an entry. -/
theorem scan_of_scanParts {digits hex : List Char} (h : scanParts pattern cs = some [digits, hex])
    (hread : readMagnitude 10 digits = .ok e.index)
    (hcode : e.code = String.ofList ('0' :: 'x' :: hex)) : scan cs = some e := by
  simp only [scanParts, pattern] at h
  split at h
  · cases h
  obtain ⟨runs, h, hdigits⟩ := Option.map_eq_some_iff.mp h
  cases hdigits
  obtain ⟨cs₁, h₁, h⟩ := Option.bind_eq_some_iff.mp h
  obtain ⟨cs₂, h₂, h⟩ := Option.bind_eq_some_iff.mp h
  obtain ⟨cs₃, h₃, h⟩ := Option.bind_eq_some_iff.mp h
  obtain ⟨cs₄, h₄, h⟩ := Option.bind_eq_some_iff.mp h
  split at h
  · cases h
  next hhex =>
    obtain ⟨runs, h, hruns⟩ := Option.map_eq_some_iff.mp h
    cases hruns
    obtain ⟨cs₅, h₅, h⟩ := Option.bind_eq_some_iff.mp h
    obtain ⟨cs₆, h₆, -⟩ := Option.bind_eq_some_iff.mp h
    have hguard : guard ((!(cs₄.takeWhile isHex).isEmpty) = true) = some () := by
      rw [Option.guard_eq_some']
      simpa using hhex
    have he : (⟨e.index, String.ofList ('0' :: 'x' :: cs₄.takeWhile isHex)⟩ : Entry) = e := by
      rw [← hcode]
    simp only [scan, skipBlanks, Option.bind_eq_bind, hread, Except.toOption, h₁, h₂, h₃, h₄, h₅,
      h₆, hguard, Option.bind_some, he]
    rfl

/-- **The scan of an entry is the scan of its pattern**, but for the size of the index. -/
theorem scan_eq_some_iff :
    scan cs = some e ↔ ∃ digits hex, scanParts pattern cs = some [digits, hex] ∧
      readMagnitude 10 digits = .ok e.index ∧ e.code = String.ofList ('0' :: 'x' :: hex) := by
  constructor
  · exact scanParts_of_scan
  · rintro ⟨digits, hex, h, hread, hcode⟩
    exact scan_of_scanParts h hread hcode

/-- The first run of the pattern consists of digits. -/
theorem digits_of_fits {digits hex : List Char} (h : Fits pattern [digits, hex] cs) :
    digits ≠ [] ∧ ∀ c ∈ digits, isDecimal c = true := by
  cases h with
  | gap _ h =>
    cases h with
    | run hne hdigits _ => exact ⟨hne, hdigits⟩

/-- A line holds an entry just if it starts with the pattern and the index is within 64 bits. -/
theorem ofLine?_eq_some_iff {line : String} :
    ofLine? line = some e ↔ ∃ digits hex, Fits pattern [digits, hex] line.toList ∧
      e.index.toInt = value 10 digits ∧ e.code = String.ofList ('0' :: 'x' :: hex) := by
  rw [ofLine?, scan_eq_some_iff]
  constructor
  · rintro ⟨digits, hex, h, hread, hcode⟩
    obtain ⟨-, -, hvalue⟩ := (readMagnitude_eq_ok_iff (by decide)).mp hread
    exact ⟨digits, hex, fits_of_scanParts h, hvalue, hcode⟩
  · rintro ⟨digits, hex, h, hvalue, hcode⟩
    obtain ⟨hne, hdigits⟩ := digits_of_fits h
    refine ⟨digits, hex, scanParts_of_fits settled_pattern h, ?_, hcode⟩
    exact (readMagnitude_eq_ok_iff (by decide)).mpr ⟨hne, hdigits, hvalue⟩

/-- **Which lines hold an entry.** A line holds an entry just if it starts with the pattern and its
index is within 64 bits, whatever comes after it. The index is the value of the digits, however
many, and the code is taken down as it is written. Wherever a line may be cut, there is one pair of
runs at most, and one scan from left to right finds it or finds that there is none. A line holds no
entry just if it does not start with the pattern, or if the digits are worth more than 64 bits
hold. -/
theorem holds_entry_iff (line : String) :
    (∀ e, ofLine? line = some e ↔ ∃ digits hex, Fits pattern [digits, hex] line.toList ∧
      e.index.toInt = value 10 digits ∧ e.code = String.ofList ('0' :: 'x' :: hex)) ∧
    (∀ runs, scanParts pattern line.toList = some runs ↔ Fits pattern runs line.toList) ∧
    (∀ runs runs', Fits pattern runs line.toList → Fits pattern runs' line.toList → runs = runs') ∧
    (ofLine? line = none ↔ ∀ digits hex, Fits pattern [digits, hex] line.toList →
      Int64.maxValue.toInt < value 10 digits) := by
  refine ⟨fun e => ofLine?_eq_some_iff, fun runs => scanParts_eq_some_iff settled_pattern,
    fun runs runs' h h' => h.unique settled_pattern h', ?_⟩
  constructor
  · intro hnone digits hex h
    by_contra hle
    have hindex : (Int64.ofInt (value 10 digits)).toInt = value 10 digits := by
      rw [Int64.toInt_maxValue] at hle
      exact Int64.toInt_ofInt_of_le (by omega) (by omega)
    have hsome : ofLine? line = some ⟨Int64.ofInt (value 10 digits), _⟩ :=
      ofLine?_eq_some_iff.mpr ⟨digits, hex, h, hindex, rfl⟩
    rw [hnone] at hsome
    cases hsome
  · intro h
    cases hsome : ofLine? line with
    | none => rfl
    | some e =>
      obtain ⟨digits, hex, hfits, hvalue, -⟩ := ofLine?_eq_some_iff.mp hsome
      have hlarge := h digits hex hfits
      have hle := e.index.toInt_le
      omega

/-- Blanks of several kinds, zeros in front and another entry behind; and a line in order whose
index is one too large. -/
theorem holds_entry_iff_between_blanks :
    let line := "\u00a0\u2003007,\n/*\u3000(0xFfAA\t)*/ 8, /* (0x8) */"
    let large := "0009223372036854775808, /* (0x1) */"
    Fits pattern ["007".toList, "FfAA".toList] line.toList ∧
      ofLine? line = some ⟨7, "0xFfAA"⟩ ∧
      (∀ runs, Fits pattern runs line.toList → runs = ["007".toList, "FfAA".toList]) ∧
      Fits pattern ["0009223372036854775808".toList, "1".toList] large.toList ∧
      ofLine? large = none := by
  intro line large
  obtain ⟨hsome, hscan, hunique, -⟩ := holds_entry_iff line
  obtain ⟨-, hscan', hunique', hnone⟩ := holds_entry_iff large
  have hfits := (hscan ["007".toList, "FfAA".toList]).mp (by decide +kernel)
  have hfits' := (hscan' ["0009223372036854775808".toList, "1".toList]).mp (by decide +kernel)
  refine ⟨hfits, ?_, fun runs h => hunique _ _ h hfits, hfits', ?_⟩
  · apply (hsome _).mpr
    exact ⟨_, _, hfits, by decide +kernel, by decide +kernel⟩
  · apply hnone.mpr
    intro digits hex h
    cases hunique' _ _ h hfits'
    decide +kernel

end Entry

end GlyphRebase
