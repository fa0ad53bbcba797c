import GlyphRebase.Number.Integer

/-!
# The values of digits

Digits of any length have a value (`Number.value`), however large. Reading them gives up at the
first digit that carries the number beyond the limit; since a number never gets smaller when digits
are added to it, digits are read just if their value is within the limit
(`accumulate_eq_ok_iff`). So digits without a sign are read as a number of 64 bits just if they
stand for one (`readMagnitude_eq_ok_iff`).
-/

namespace GlyphRebase.Number

/-- The value of digits that are added to a number. What is no digit counts as a zero. -/
def valueFrom (base n : Nat) (cs : List Char) : Nat :=
  cs.foldl (fun n c => n * base + (digit? base c).getD 0) n

/-- The value of digits, of which the first counts most. -/
def value (base : Nat) (cs : List Char) : Nat := valueFrom base 0 cs

variable {base limit n m : Nat} {beyond : Fault} {cs : List Char}

theorem valueFrom_cons {c : Char} {d : Nat} (h : digit? base c = some d) :
    valueFrom base n (c :: cs) = valueFrom base (n * base + d) cs := by
  rw [valueFrom, List.foldl_cons, h]
  rfl

/-- A number does not get smaller when digits are added to it. -/
theorem le_valueFrom (hbase : 0 < base) : n ≤ valueFrom base n cs := by
  induction cs generalizing n with
  | nil => exact Nat.le_refl n
  | cons c cs ih =>
    calc
      n ≤ n * base := Nat.le_mul_of_pos_right n hbase
      _ ≤ n * base + (digit? base c).getD 0 := Nat.le_add_right ..
      _ ≤ valueFrom base n (c :: cs) := ih

/-- **Digits are read just if their value is within the limit.** -/
theorem accumulate_eq_ok_iff (hbase : 0 < base) (hn : n ≤ limit) :
    accumulate base limit beyond n cs = .ok m ↔
      (∀ c ∈ cs, (digit? base c).isSome = true) ∧ valueFrom base n cs = m ∧ m ≤ limit := by
  induction cs generalizing n with
  | nil =>
    constructor
    · intro h
      cases h
      exact ⟨List.forall_mem_nil _, rfl, hn⟩
    · rintro ⟨-, rfl, -⟩
      rfl
  | cons c cs ih =>
    rw [accumulate, List.forall_mem_cons]
    cases hc : digit? base c with
    | none => simp
    | some d =>
      simp only [Option.isSome_some, true_and]
      rw [valueFrom_cons hc]
      split
      · next hlarge =>
        -- the digits to come can only make it larger
        have hle : n * base + d ≤ valueFrom base (n * base + d) cs := le_valueFrom hbase
        constructor
        · intro h
          cases h
        · rintro ⟨-, rfl, hm⟩
          omega
      · next hsmall => exact ih (Nat.not_lt.mp hsmall)

/-- Digits without a sign are read just if they stand for a number of 64 bits. -/
theorem readMagnitude_eq_ok_iff (hbase : 0 < base) {i : Int64} :
    readMagnitude base cs = .ok i ↔
      cs ≠ [] ∧ (∀ c ∈ cs, (digit? base c).isSome = true) ∧ i.toInt = value base cs := by
  have hlimit : Int64.maxValue.toInt.toNat = 9223372036854775807 := rfl
  have hlo := i.le_toInt
  have hhi := i.toInt_lt
  rw [readMagnitude]
  by_cases hcs : cs = []
  · simp [hcs]
  · simp only [List.isEmpty_iff, hcs, if_false, ne_eq, not_false_eq_true, true_and]
    constructor
    · intro h
      cases hread : accumulate base Int64.maxValue.toInt.toNat .tooLarge 0 cs with
      | error fault =>
        rw [hread] at h
        cases h
      | ok m =>
        rw [hread] at h
        cases h
        obtain ⟨hdigits, hvalue, hm⟩ := (accumulate_eq_ok_iff hbase (Nat.zero_le _)).mp hread
        refine ⟨hdigits, ?_⟩
        rw [Int64.toInt_ofInt_of_le (by omega) (by omega), value, hvalue]
    · rintro ⟨hdigits, hvalue⟩
      have hread : accumulate base Int64.maxValue.toInt.toNat .tooLarge 0 cs =
          .ok (value base cs) := by
        apply (accumulate_eq_ok_iff hbase (Nat.zero_le _)).mpr
        exact ⟨hdigits, rfl, by omega⟩
      rw [hread]
      show Except.ok (Int64.ofInt (value base cs : Int)) = .ok i
      rw [← hvalue, Int64.ofInt_toInt]

end GlyphRebase.Number
