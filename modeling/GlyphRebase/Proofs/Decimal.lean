import GlyphRebase.Number.Integer
import Mathlib.Data.List.Chain

/-!
# Numbers are read as they were written

`Number.decimal` writes digits without superfluous zeros in front (`canonical_decimal`), and reading
them gives the number back, as long as it is within the limit (`accumulate_decimal`). With its sign,
every number of 64 bits is read as it was written (`readSigned_render`).
-/

namespace GlyphRebase.Number

/-! ### Digits -/

/-- A digit of whatever base stands between `0` and `f`. -/
theorem between_of_digit? {base d : Nat} {c : Char} (h : digit? base c = some d) :
    '0' ≤ c ∧ c ≤ 'f' := by
  have hnine : '9' ≤ 'f' := by decide
  have hupper : '0' ≤ 'A' ∧ 'F' ≤ 'f' := by decide
  have hlower : '0' ≤ 'a' := by decide
  unfold digit? at h
  split at h
  · next hc => exact ⟨hc.1, Char.le_trans hc.2 hnine⟩
  split at h
  · next hc => exact ⟨Char.le_trans hlower hc.1, hc.2⟩
  split at h
  · next hc => exact ⟨Char.le_trans hupper.1 hc.1, Char.le_trans hc.2 hupper.2⟩
  · cases h

theorem between_of_isDecimal {c : Char} (h : isDecimal c = true) : '0' ≤ c ∧ c ≤ 'f' := by
  obtain ⟨d, hd⟩ := Option.isSome_iff_exists.mp h
  exact between_of_digit? hd

theorem between_of_isHex {c : Char} (h : isHex c = true) : '0' ≤ c ∧ c ≤ 'f' := by
  obtain ⟨d, hd⟩ := Option.isSome_iff_exists.mp h
  exact between_of_digit? hd

theorem digit?_decimalDigit {d : Nat} (hd : d < 10) : digit? 10 (decimalDigit d) = some d := by
  have h : ∀ d < 10, digit? 10 (decimalDigit d) = some d := by decide
  exact h d hd

theorem isDecimal_decimalDigit {d : Nat} (hd : d < 10) : isDecimal (decimalDigit d) = true := by
  rw [isDecimal, digit?_decimalDigit hd]
  rfl

theorem decimal_of_lt {n : Nat} (h : n < 10) : decimal n = [decimalDigit n] := by
  rw [decimal, if_pos h]

theorem decimal_of_le {n : Nat} (h : 10 ≤ n) :
    decimal n = decimal (n / 10) ++ [decimalDigit (n % 10)] := by
  rw [decimal, if_neg (Nat.not_lt.mpr h)]

theorem decimal_ne_nil (n : Nat) : decimal n ≠ [] := by
  rcases Nat.lt_or_ge n 10 with h | h
  · rw [decimal_of_lt h]
    exact nofun
  · rw [decimal_of_le h]
    simp

theorem isDecimal_of_mem_decimal {n : Nat} {c : Char} (h : c ∈ decimal n) : isDecimal c = true := by
  induction n using Nat.strongRecOn with
  | ind n ih =>
    rcases Nat.lt_or_ge n 10 with hn | hn
    · rw [decimal_of_lt hn, List.mem_singleton] at h
      exact h ▸ isDecimal_decimalDigit hn
    · rw [decimal_of_le hn, List.mem_append, List.mem_singleton] at h
      rcases h with h | rfl
      · exact ih (n / 10) (by omega) h
      · exact isDecimal_decimalDigit (Nat.mod_lt _ (by decide))

/-- Only the digits of zero begin with a zero. -/
theorem head?_decimal {n : Nat} (hn : 0 < n) : (decimal n).head? ≠ some '0' := by
  induction n using Nat.strongRecOn with
  | ind n ih =>
    rcases Nat.lt_or_ge n 10 with h | h
    · have hdigits : ∀ d < 10, 0 < d → decimalDigit d ≠ '0' := by decide
      rw [decimal_of_lt h]
      simpa using hdigits n h hn
    · rw [decimal_of_le h, List.head?_append_of_ne_nil _ (decimal_ne_nil _)]
      exact ih (n / 10) (by omega) (by omega)

/-- Some decimal digits, of which the first is a zero only if it is all there is. -/
structure Canonical (digits : List Char) : Prop where
  ne_nil : digits ≠ []
  isDecimal : ∀ c ∈ digits, isDecimal c = true
  zero : digits.head? = some '0' → digits = ['0']

theorem canonical_decimal (n : Nat) : Canonical (decimal n) := by
  refine ⟨decimal_ne_nil n, fun c hc => isDecimal_of_mem_decimal hc, fun h => ?_⟩
  cases n with
  | zero => exact decimal_of_lt (by decide)
  | succ n => exact absurd h (head?_decimal (Nat.succ_pos n))

/-! ### Reading digits -/

variable {base limit : Nat} {beyond : Fault}

theorem accumulate_append (n : Nat) (cs ds : List Char) :
    accumulate base limit beyond n (cs ++ ds) =
      accumulate base limit beyond n cs >>= fun m => accumulate base limit beyond m ds := by
  induction cs generalizing n with
  | nil => rfl
  | cons c cs ih =>
    rw [List.cons_append, accumulate, accumulate]
    cases digit? base c with
    | none => rfl
    | some d =>
      simp only
      split
      · rfl
      · exact ih _

/-- Digits are read as the number that they were written for. -/
theorem accumulate_decimal {n : Nat} (h : n ≤ limit) :
    accumulate 10 limit beyond 0 (decimal n) = .ok n := by
  induction n using Nat.strongRecOn with
  | ind n ih =>
    rcases Nat.lt_or_ge n 10 with hn | hn
    · rw [decimal_of_lt hn, accumulate, digit?_decimalDigit hn]
      simp only [Nat.zero_mul, Nat.zero_add]
      rw [if_neg (Nat.not_lt.mpr h)]
      rfl
    · have hfront := ih (n / 10) (by omega) (by omega)
      have hvalue : n / 10 * 10 + n % 10 = n := Nat.div_add_mod' n 10
      rw [decimal_of_le hn, accumulate_append, hfront]
      show accumulate 10 limit beyond (n / 10) [decimalDigit (n % 10)] = .ok n
      rw [accumulate, digit?_decimalDigit (Nat.mod_lt _ (by decide))]
      simp only [hvalue]
      rw [if_neg (Nat.not_lt.mpr h)]
      rfl

/-! ### Numbers with a sign -/

/-- What begins with no sign is read as digits. -/
theorem readSigned_of_ne {c : Char} (hplus : c ≠ '+') (hminus : c ≠ '-') (cs : List Char) :
    readSigned base (c :: cs) = readMagnitude base (c :: cs) := by
  unfold readSigned
  split
  · next h => cases h
  · next h => exact absurd (List.cons.inj h).1 hminus
  · next h => exact absurd (List.cons.inj h).1 hplus
  · rfl

theorem readSigned_of_isDecimal {c : Char} (hc : isDecimal c = true) (cs : List Char) :
    readSigned base (c :: cs) = readMagnitude base (c :: cs) := by
  apply readSigned_of_ne <;>
  · rintro rfl
    cases hc

/-- A number is written with a minus sign or none, and its digits. -/
theorem render_eq (n : Int64) : ∃ sign, (sign = [] ∨ sign = ['-']) ∧
    (render n).toList = sign ++ decimal n.toInt.natAbs := by
  unfold render
  by_cases hn : n < 0
  · exact ⟨['-'], .inr rfl, by rw [if_pos hn, String.toList_ofList]; rfl⟩
  · exact ⟨[], .inl rfl, by rw [if_neg hn, String.toList_ofList]; rfl⟩

/-- **A number is read as it was written.** -/
theorem readSigned_render (n : Int64) : readSigned 10 (render n).toList = .ok n := by
  have hlo := n.le_toInt
  have hhi := n.toInt_lt
  unfold render
  by_cases hn : n < 0
  · have hneg : n.toInt < 0 := by simpa [Int64.lt_iff_toInt_lt] using hn
    rw [if_pos hn, String.toList_ofList, readSigned, if_neg (by simp [decimal_ne_nil]),
      accumulate_decimal]
    · show Except.ok (Int64.ofInt (-(n.toInt.natAbs : Int))) = Except.ok n
      rw [show -(n.toInt.natAbs : Int) = n.toInt by omega, Int64.ofInt_toInt]
    · rw [Int64.toInt_minValue]
      omega
  · have hnonneg : 0 ≤ n.toInt := by simpa [Int64.lt_iff_toInt_lt] using hn
    obtain ⟨c, cs, hcs⟩ := List.exists_cons_of_ne_nil (decimal_ne_nil n.toInt.natAbs)
    have hc : isDecimal c = true := isDecimal_of_mem_decimal (n := n.toInt.natAbs) (by simp [hcs])
    rw [if_neg hn, String.toList_ofList, hcs, readSigned_of_isDecimal hc, ← hcs, readMagnitude,
      if_neg (by simp [decimal_ne_nil]), accumulate_decimal]
    · show Except.ok (Int64.ofInt (n.toInt.natAbs : Int)) = Except.ok n
      rw [show (n.toInt.natAbs : Int) = n.toInt by omega, Int64.ofInt_toInt]
    · rw [Int64.toInt_maxValue]
      omega

example : (render Int64.minValue).toList = "-9223372036854775808".toList := by decide +kernel

end GlyphRebase.Number
