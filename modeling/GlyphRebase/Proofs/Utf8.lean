import GlyphRebase.Text.Utf8
import Mathlib.Data.List.Basic

/-!
# Decoding is the inverse of encoding

`Utf8.decode` accepts exactly the bytes that encode a text, and gives that text
(`decode_eq_ok_iff`). The decoder takes one byte at a time, so each direction is a statement about
the bytes of one character: what encodes a character is read as that character
(`decodeFrom_encodeChar`), and what is read as a character encodes it (`decodeFrom_cons_inv`). Both
follow the four lengths that a character can have.
-/

namespace GlyphRebase.Utf8

/-- The bytes are a text. -/
def IsText (bytes : List UInt8) : Prop := ∃ s, encode s = bytes

/-! ### One step of the decoder -/

theorem decodeFrom_ascii (n : Nat) {b : UInt8} (hb : b < 0x80) (bs : List UInt8) :
    decodeFrom n none (b :: bs) =
      (decodeFrom (n + 1) none bs).map (Char.ofNat b.toNat :: ·) := by
  rw [decodeFrom, if_pos hb]

theorem decodeFrom_begin (n : Nat) {b : UInt8} (hb : ¬b < 0x80) {s : Sequence}
    (hs : begin? b = some s) (bs : List UInt8) :
    decodeFrom n none (b :: bs) = decodeFrom (n + 1) (some s) bs := by
  rw [decodeFrom, if_neg hb, hs]

theorem decodeFrom_next (n : Nat) {s : Sequence} {b : UInt8} (hb : s.low ≤ b ∧ b ≤ s.high)
    (ho : s.owed ≠ 0) (bs : List UInt8) :
    decodeFrom n (some s) (b :: bs) = decodeFrom (n + 1) (some (s.next b)) bs := by
  rw [decodeFrom, if_pos hb, if_neg ho]

theorem decodeFrom_last (n : Nat) {s : Sequence} {b : UInt8} (hb : s.low ≤ b ∧ b ≤ s.high)
    (ho : s.owed = 0) (bs : List UInt8) :
    decodeFrom n (some s) (b :: bs) =
      (decodeFrom (n + 1) none bs).map (Char.ofNat (s.value * 64 + (b.toNat - 0x80)) :: ·) := by
  rw [decodeFrom, if_pos hb, if_pos ho]

/-- Inside a sequence, a text goes on with a byte between the bounds. -/
theorem decodeFrom_some_inv {n : Nat} {s : Sequence} {bytes : List UInt8} {cs : List Char}
    (h : decodeFrom n (some s) bytes = .ok cs) :
    ∃ b bs, bytes = b :: bs ∧ s.low ≤ b ∧ b ≤ s.high := by
  cases bytes with
  | nil => cases h
  | cons b bs =>
    by_cases hb : s.low ≤ b ∧ b ≤ s.high
    · exact ⟨b, bs, rfl, hb⟩
    · rw [decodeFrom, if_neg hb] at h
      cases h

/-! ### First bytes -/

theorem begin?_two {b : UInt8} (h₁ : 0xC2 ≤ b.toNat) (h₂ : b.toNat < 0xE0) :
    begin? b = some ⟨1, 0, 0x80, 0xBF, b.toNat - 0xC0⟩ := by
  rw [begin?, if_neg, if_pos]
  · exact UInt8.lt_iff_toNat_lt.mpr h₂
  · exact fun h => absurd (UInt8.lt_iff_toNat_lt.mp h) (Nat.not_lt.mpr h₁)

theorem begin?_three {b : UInt8} (h₁ : 0xE0 ≤ b.toNat) (h₂ : b.toNat < 0xF0) :
    begin? b = some ⟨1, 1, if b = 0xE0 then 0xA0 else 0x80, if b = 0xED then 0x9F else 0xBF,
      b.toNat - 0xE0⟩ := by
  rw [begin?, if_neg, if_neg, if_pos]
  · exact UInt8.lt_iff_toNat_lt.mpr h₂
  · exact fun h => absurd (UInt8.lt_iff_toNat_lt.mp h) (Nat.not_lt.mpr h₁)
  · intro h
    have := UInt8.lt_iff_toNat_lt.mp h
    simp only [UInt8.reduceToNat] at this
    omega

theorem begin?_four {b : UInt8} (h₁ : 0xF0 ≤ b.toNat) (h₂ : b.toNat < 0xF5) :
    begin? b = some ⟨1, 2, if b = 0xF0 then 0x90 else 0x80, if b = 0xF4 then 0x8F else 0xBF,
      b.toNat - 0xF0⟩ := by
  rw [begin?, if_neg, if_neg, if_neg, if_pos]
  · exact UInt8.lt_iff_toNat_lt.mpr h₂
  · exact fun h => absurd (UInt8.lt_iff_toNat_lt.mp h) (Nat.not_lt.mpr h₁)
  · intro h
    have := UInt8.lt_iff_toNat_lt.mp h
    simp only [UInt8.reduceToNat] at this
    omega
  · intro h
    have := UInt8.lt_iff_toNat_lt.mp h
    simp only [UInt8.reduceToNat] at this
    omega

/-- The first byte of a longer character tells how long it is. -/
theorem begin?_cases {b : UInt8} {s : Sequence} (h : begin? b = some s) :
    (0xC2 ≤ b.toNat ∧ b.toNat < 0xE0) ∨ (0xE0 ≤ b.toNat ∧ b.toNat < 0xF0) ∨
      (0xF0 ≤ b.toNat ∧ b.toNat < 0xF5) := by
  unfold begin? at h
  simp only [UInt8.lt_iff_toNat_lt, UInt8.reduceToNat] at h
  split at h
  · cases h
  · split at h
    · left; omega
    · split at h
      · right; left; omega
      · split at h
        · right; right; omega
        · cases h

/-! ### Whole characters -/

/-- A byte that may follow the second of a sequence, or the first of one without narrower
bounds. -/
def IsTail (b : UInt8) : Prop := 0x80 ≤ b.toNat ∧ b.toNat ≤ 0xBF

/-- The first two bytes of a character of three: no shorter form, and no surrogate. -/
def BeginsThree (a b : UInt8) : Prop :=
  (0xE0 ≤ a.toNat ∧ a.toNat < 0xF0) ∧ IsTail b ∧ (a.toNat = 0xE0 → 0xA0 ≤ b.toNat) ∧
    (a.toNat = 0xED → b.toNat ≤ 0x9F)

/-- The first two bytes of a character of four: no shorter form, and no code point too many. -/
def BeginsFour (a b : UInt8) : Prop :=
  (0xF0 ≤ a.toNat ∧ a.toNat < 0xF5) ∧ IsTail b ∧ (a.toNat = 0xF0 → 0x90 ≤ b.toNat) ∧
    (a.toNat = 0xF4 → b.toNat ≤ 0x8F)

theorem isTail_iff {b : UInt8} : IsTail b ↔ (0x80 : UInt8) ≤ b ∧ b ≤ 0xBF := by
  simp only [IsTail, UInt8.le_iff_toNat_le, UInt8.reduceToNat]

/-- Narrower bounds for one first byte, in terms of values. -/
theorem ite_le_iff {a b k low low' : UInt8} :
    (if a = k then low else low') ≤ b ↔
      (a.toNat = k.toNat → low.toNat ≤ b.toNat) ∧ (a.toNat ≠ k.toNat → low'.toNat ≤ b.toNat) := by
  by_cases h : a = k
  · subst h
    simp [UInt8.le_iff_toNat_le]
  · have h' : a.toNat ≠ k.toNat := fun e => h (UInt8.toNat_inj.mp e)
    simp [h, h', UInt8.le_iff_toNat_le]

theorem le_ite_iff {a b k high high' : UInt8} :
    b ≤ (if a = k then high else high') ↔
      (a.toNat = k.toNat → b.toNat ≤ high.toNat) ∧
        (a.toNat ≠ k.toNat → b.toNat ≤ high'.toNat) := by
  by_cases h : a = k
  · subst h
    simp [UInt8.le_iff_toNat_le]
  · have h' : a.toNat ≠ k.toNat := fun e => h (UInt8.toNat_inj.mp e)
    simp [h, h', UInt8.le_iff_toNat_le]

/-- The bounds for the second byte of three. -/
theorem bounds_three {a b : UInt8} (ha : 0xE0 ≤ a.toNat ∧ a.toNat < 0xF0) :
    ((if a = 0xE0 then (0xA0 : UInt8) else 0x80) ≤ b ∧
      b ≤ if a = 0xED then (0x9F : UInt8) else 0xBF) ↔ BeginsThree a b := by
  rw [ite_le_iff, le_ite_iff]
  simp only [BeginsThree, IsTail, UInt8.reduceToNat]
  omega

/-- The bounds for the second byte of four. -/
theorem bounds_four {a b : UInt8} (ha : 0xF0 ≤ a.toNat ∧ a.toNat < 0xF5) :
    ((if a = 0xF0 then (0x90 : UInt8) else 0x80) ≤ b ∧
      b ≤ if a = 0xF4 then (0x8F : UInt8) else 0xBF) ↔ BeginsFour a b := by
  rw [ite_le_iff, le_ite_iff]
  simp only [BeginsFour, IsTail, UInt8.reduceToNat]
  omega

theorem not_ascii {b : UInt8} (h : 0x80 ≤ b.toNat) : ¬b < 0x80 := fun hb =>
  absurd (UInt8.lt_iff_toNat_lt.mp hb) (Nat.not_lt.mpr h)

theorem decodeFrom_two (n : Nat) {a b : UInt8} (ha : 0xC2 ≤ a.toNat ∧ a.toNat < 0xE0)
    (hb : IsTail b) (bs : List UInt8) :
    decodeFrom n none (a :: b :: bs) = (decodeFrom (n + 2) none bs).map
      (Char.ofNat ((a.toNat - 0xC0) * 64 + (b.toNat - 0x80)) :: ·) := by
  rw [decodeFrom_begin n (not_ascii (by omega)) (begin?_two ha.1 ha.2),
    decodeFrom_last _ (isTail_iff.mp hb) rfl]

theorem decodeFrom_three (n : Nat) {a b c : UInt8} (h : BeginsThree a b) (hc : IsTail c)
    (bs : List UInt8) :
    decodeFrom n none (a :: b :: c :: bs) = (decodeFrom (n + 3) none bs).map
      (Char.ofNat (((a.toNat - 0xE0) * 64 + (b.toNat - 0x80)) * 64 + (c.toNat - 0x80)) :: ·) := by
  have ha := h.1
  rw [decodeFrom_begin n (not_ascii (by omega)) (begin?_three ha.1 ha.2),
    decodeFrom_next _ ((bounds_three ha).mpr h) (by simp),
    decodeFrom_last _ (isTail_iff.mp hc) rfl]
  rfl

theorem decodeFrom_four (n : Nat) {a b c d : UInt8} (h : BeginsFour a b) (hc : IsTail c)
    (hd : IsTail d) (bs : List UInt8) :
    decodeFrom n none (a :: b :: c :: d :: bs) = (decodeFrom (n + 4) none bs).map
      (Char.ofNat ((((a.toNat - 0xF0) * 64 + (b.toNat - 0x80)) * 64 + (c.toNat - 0x80)) * 64 +
        (d.toNat - 0x80)) :: ·) := by
  have ha := h.1
  rw [decodeFrom_begin n (not_ascii (by omega)) (begin?_four ha.1 ha.2),
    decodeFrom_next _ ((bounds_four ha).mpr h) (by simp),
    decodeFrom_next _ (isTail_iff.mp hc) (by simp [Sequence.next]),
    decodeFrom_last _ (isTail_iff.mp hd) rfl]
  rfl

/-! ### Encoding -/

theorem toNat_ofNat_of_lt {n : Nat} (h : n < 256) : (UInt8.ofNat n).toNat = n := by
  rw [UInt8.toNat_ofNat', Nat.mod_eq_of_lt h]

/-- What encodes a character is read as that character, and takes as many bytes. -/
theorem decodeFrom_encodeChar (n : Nat) (c : Char) (bs : List UInt8) :
    decodeFrom n none (String.utf8EncodeChar c ++ bs) =
      (decodeFrom (n + (String.utf8EncodeChar c).length) none bs).map (c :: ·) := by
  have hv : c.val.toNat < 0xD800 ∨ 0xDFFF < c.val.toNat ∧ c.val.toNat < 0x110000 := c.valid
  have hc : Char.ofNat c.val.toNat = c := Char.ofNat_toNat c
  generalize hn : c.val.toNat = v at hv hc
  simp only [String.utf8EncodeChar, hn]
  split
  · next h =>
    have h₀ := toNat_ofNat_of_lt (n := v) (by omega)
    rw [List.singleton_append, decodeFrom_ascii, h₀, hc]
    · rfl
    rw [UInt8.lt_iff_toNat_lt, h₀]
    simp only [UInt8.reduceToNat]
    omega
  split
  · next h =>
    have h₀ := toNat_ofNat_of_lt (n := v / 64 % 32 + 0xC0) (by omega)
    have h₁ := toNat_ofNat_of_lt (n := v % 64 + 0x80) (by omega)
    rw [List.cons_append, List.singleton_append, decodeFrom_two]
    · rw [h₀, h₁, show (v / 64 % 32 + 0xC0 - 0xC0) * 64 + (v % 64 + 0x80 - 0x80) = v by omega, hc]
      rfl
    · rw [h₀]; omega
    · rw [IsTail, h₁]; omega
  split
  · next h =>
    have h₀ := toNat_ofNat_of_lt (n := v / 4096 % 16 + 0xE0) (by omega)
    have h₁ := toNat_ofNat_of_lt (n := v / 64 % 64 + 0x80) (by omega)
    have h₂ := toNat_ofNat_of_lt (n := v % 64 + 0x80) (by omega)
    rw [List.cons_append, List.cons_append, List.singleton_append, decodeFrom_three]
    · rw [h₀, h₁, h₂, show ((v / 4096 % 16 + 0xE0 - 0xE0) * 64 + (v / 64 % 64 + 0x80 - 0x80)) * 64 +
        (v % 64 + 0x80 - 0x80) = v by omega, hc]
      rfl
    · rw [BeginsThree, IsTail, h₀, h₁]; omega
    · rw [IsTail, h₂]; omega
  · next h =>
    have h₀ := toNat_ofNat_of_lt (n := v / 262144 % 8 + 0xF0) (by omega)
    have h₁ := toNat_ofNat_of_lt (n := v / 4096 % 64 + 0x80) (by omega)
    have h₂ := toNat_ofNat_of_lt (n := v / 64 % 64 + 0x80) (by omega)
    have h₃ := toNat_ofNat_of_lt (n := v % 64 + 0x80) (by omega)
    rw [List.cons_append, List.cons_append, List.cons_append, List.singleton_append,
      decodeFrom_four]
    · rw [h₀, h₁, h₂, h₃, show (((v / 262144 % 8 + 0xF0 - 0xF0) * 64 +
        (v / 4096 % 64 + 0x80 - 0x80)) * 64 + (v / 64 % 64 + 0x80 - 0x80)) * 64 +
        (v % 64 + 0x80 - 0x80) = v by omega, hc]
      rfl
    · rw [BeginsFour, IsTail, h₀, h₁]; omega
    · rw [IsTail, h₂]; omega
    · rw [IsTail, h₃]; omega

/-- The value of a character made from its code point. -/
theorem val_ofNat {v : Nat} (h : v < 0xD800 ∨ 0xDFFF < v ∧ v < 0x110000) :
    (Char.ofNat v).val.toNat = v := by
  rw [Char.ofNat, dif_pos (show v.isValidChar from h)]
  rfl

theorem encodeChar_ascii {b : UInt8} (h : b < 0x80) :
    String.utf8EncodeChar (Char.ofNat b.toNat) = [b] := by
  have hb : b.toNat < 0x80 := UInt8.lt_iff_toNat_lt.mp h
  rw [String.utf8EncodeChar, val_ofNat (by omega), if_pos (by omega), UInt8.ofNat_toNat]

theorem encodeChar_two {a b : UInt8} (ha : 0xC2 ≤ a.toNat ∧ a.toNat < 0xE0) (hb : IsTail b) :
    String.utf8EncodeChar (Char.ofNat ((a.toNat - 0xC0) * 64 + (b.toNat - 0x80))) = [a, b] := by
  obtain ⟨hb₁, hb₂⟩ := hb
  rw [String.utf8EncodeChar, val_ofNat (by omega)]
  rw [if_neg (by omega), if_pos (by omega)]
  simp only [List.cons.injEq, and_true, ← UInt8.toNat_inj, UInt8.toNat_ofNat']
  omega

theorem encodeChar_three {a b c : UInt8} (h : BeginsThree a b) (hc : IsTail c) :
    String.utf8EncodeChar (Char.ofNat
      (((a.toNat - 0xE0) * 64 + (b.toNat - 0x80)) * 64 + (c.toNat - 0x80))) = [a, b, c] := by
  obtain ⟨⟨ha₁, ha₂⟩, ⟨hb₁, hb₂⟩, hlow, hhigh⟩ := h
  obtain ⟨hc₁, hc₂⟩ := hc
  rw [String.utf8EncodeChar, val_ofNat (by omega)]
  rw [if_neg (by omega), if_neg (by omega), if_pos (by omega)]
  simp only [List.cons.injEq, and_true, ← UInt8.toNat_inj, UInt8.toNat_ofNat']
  omega

theorem encodeChar_four {a b c d : UInt8} (h : BeginsFour a b) (hc : IsTail c) (hd : IsTail d) :
    String.utf8EncodeChar (Char.ofNat ((((a.toNat - 0xF0) * 64 + (b.toNat - 0x80)) * 64 +
      (c.toNat - 0x80)) * 64 + (d.toNat - 0x80))) = [a, b, c, d] := by
  obtain ⟨⟨ha₁, ha₂⟩, ⟨hb₁, hb₂⟩, hlow, hhigh⟩ := h
  obtain ⟨hc₁, hc₂⟩ := hc
  obtain ⟨hd₁, hd₂⟩ := hd
  rw [String.utf8EncodeChar, val_ofNat (by omega)]
  rw [if_neg (by omega), if_neg (by omega), if_neg (by omega)]
  simp only [List.cons.injEq, and_true, ← UInt8.toNat_inj, UInt8.toNat_ofNat']
  omega

/-! ### Decoding -/

/-- What is read as a character encodes it. -/
theorem decodeFrom_cons_inv {n : Nat} {b : UInt8} {bs : List UInt8} {cs : List Char}
    (h : decodeFrom n none (b :: bs) = .ok cs) :
    ∃ c cs' rest m, cs = c :: cs' ∧ b :: bs = String.utf8EncodeChar c ++ rest ∧
      decodeFrom m none rest = .ok cs' := by
  have split {m : Nat} {c : Char} {rest : List UInt8}
      (he : b :: bs = String.utf8EncodeChar c ++ rest)
      (hm : (decodeFrom m none rest).map (c :: ·) = .ok cs) :
      ∃ c cs' rest m, cs = c :: cs' ∧ b :: bs = String.utf8EncodeChar c ++ rest ∧
        decodeFrom m none rest = .ok cs' := by
    cases hr : decodeFrom m none rest with
    | error e => rw [hr] at hm; cases hm
    | ok cs' =>
      rw [hr] at hm
      cases hm
      exact ⟨c, cs', rest, m, rfl, he, hr⟩
  by_cases hb : b < 0x80
  · rw [decodeFrom_ascii n hb] at h
    exact split (by rw [encodeChar_ascii hb]; rfl) h
  cases hs : begin? b with
  | none => rw [decodeFrom, if_neg hb, hs] at h; cases h
  | some s =>
    have h₁ := h
    rw [decodeFrom_begin n hb hs] at h₁
    obtain ⟨b₁, bs, rfl, hb₁⟩ := decodeFrom_some_inv h₁
    rcases begin?_cases hs with hlen | hlen | hlen
    · rw [begin?_two hlen.1 hlen.2] at hs
      cases hs
      rw [decodeFrom_two n hlen (isTail_iff.mpr hb₁)] at h
      exact split (by rw [encodeChar_two hlen (isTail_iff.mpr hb₁)]; rfl) h
    · rw [begin?_three hlen.1 hlen.2] at hs
      cases hs
      rw [decodeFrom_next _ hb₁ (by simp)] at h₁
      obtain ⟨b₂, bs, rfl, hb₂⟩ := decodeFrom_some_inv h₁
      have hb₁ := (bounds_three hlen).mp hb₁
      rw [decodeFrom_three n hb₁ (isTail_iff.mpr hb₂)] at h
      exact split (by rw [encodeChar_three hb₁ (isTail_iff.mpr hb₂)]; rfl) h
    · rw [begin?_four hlen.1 hlen.2] at hs
      cases hs
      rw [decodeFrom_next _ hb₁ (by simp)] at h₁
      obtain ⟨b₂, bs, rfl, hb₂⟩ := decodeFrom_some_inv h₁
      rw [decodeFrom_next _ hb₂ (by simp [Sequence.next])] at h₁
      obtain ⟨b₃, bs, rfl, hb₃⟩ := decodeFrom_some_inv h₁
      have hb₁ := (bounds_four hlen).mp hb₁
      rw [decodeFrom_four n hb₁ (isTail_iff.mpr hb₂) (isTail_iff.mpr hb₃)] at h
      exact split (by rw [encodeChar_four hb₁ (isTail_iff.mpr hb₂) (isTail_iff.mpr hb₃)]; rfl) h

/-- A text in front is read as it is, and takes as many bytes as encode it. -/
theorem decodeFrom_flatMap_append (n : Nat) (cs : List Char) (bs : List UInt8) :
    decodeFrom n none (cs.flatMap String.utf8EncodeChar ++ bs) =
      (decodeFrom (n + (cs.flatMap String.utf8EncodeChar).length) none bs).map (cs ++ ·) := by
  induction cs generalizing n with
  | nil => cases h : decodeFrom n none bs <;> simp [h, Except.map]
  | cons c cs ih =>
    rw [List.flatMap_cons, List.append_assoc, decodeFrom_encodeChar, ih, List.length_append,
      Nat.add_assoc]
    cases decodeFrom (n + ((String.utf8EncodeChar c).length +
      (cs.flatMap String.utf8EncodeChar).length)) none bs <;> rfl

theorem decodeFrom_flatMap (n : Nat) (cs : List Char) :
    decodeFrom n none (cs.flatMap String.utf8EncodeChar) = .ok cs := by
  have h := decodeFrom_flatMap_append n cs []
  simpa [decodeFrom, Except.map] using h

theorem eq_flatMap_of_decodeFrom {n : Nat} {bytes : List UInt8} {cs : List Char}
    (h : decodeFrom n none bytes = .ok cs) : bytes = cs.flatMap String.utf8EncodeChar := by
  induction cs generalizing n bytes with
  | nil =>
    cases bytes with
    | nil => rfl
    | cons b bs =>
      obtain ⟨c, cs', rest, m, hcs, -, -⟩ := decodeFrom_cons_inv h
      cases hcs
  | cons c cs ih =>
    cases bytes with
    | nil => cases h
    | cons b bs =>
      obtain ⟨c, cs', rest, m, hcs, he, hr⟩ := decodeFrom_cons_inv h
      cases hcs
      rw [he, List.flatMap_cons, ih hr]

/-- **Decoding is the inverse of encoding**: the bytes of a text are read as that text, and no
other bytes are. -/
theorem decode_eq_ok_iff {bytes : List UInt8} {s : String} :
    decode bytes = .ok s ↔ encode s = bytes := by
  unfold decode encode
  constructor
  · intro h
    cases hd : decodeFrom 0 none bytes with
    | error e => rw [hd] at h; cases h
    | ok cs =>
      rw [hd] at h
      cases h
      rw [String.toList_ofList]
      exact (eq_flatMap_of_decodeFrom hd).symm
  · rintro rfl
    rw [decodeFrom_flatMap]
    exact congrArg Except.ok (String.ofList_toList)

theorem decode_encode (s : String) : decode (encode s) = .ok s := decode_eq_ok_iff.mpr rfl

/-- No two texts have the same bytes. -/
theorem encode_injective {s t : String} (h : encode s = encode t) : s = t := by
  have hs := decode_encode s
  rw [h, decode_encode] at hs
  cases hs
  rfl

/-- Bytes that are no text are refused. -/
theorem decode_error_iff {bytes : List UInt8} : (∃ f, decode bytes = .error f) ↔ ¬IsText bytes := by
  constructor
  · rintro ⟨f, hf⟩ ⟨s, hs⟩
    rw [decode_eq_ok_iff.mpr hs] at hf
    cases hf
  · intro h
    cases hd : decode bytes with
    | error f => exact ⟨f, rfl⟩
    | ok s => exact absurd ⟨s, decode_eq_ok_iff.mp hd⟩ h

end GlyphRebase.Utf8
