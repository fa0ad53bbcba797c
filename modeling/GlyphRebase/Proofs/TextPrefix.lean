import GlyphRebase.Proofs.Utf8

/-!
# How far bytes are a text

Texts can be put together (`IsText.append_iff`), and cut at a byte of ASCII, for such a byte is a
character of its own and no part of a longer one (`isText_append_cons_iff`). If bytes are no text,
there is a longest part in front that is one (`LongestText`), and a fault in decoding tells how
long it is (`longestText_of_error`): the first sequence that is in disorder starts where this part
ends.
-/

namespace GlyphRebase.Utf8

theorem encode_append (s t : String) : encode (s ++ t) = encode s ++ encode t := by
  rw [encode, String.toList_append, List.flatMap_append]
  rfl

theorem encode_ofList (cs : List Char) :
    encode (String.ofList cs) = cs.flatMap String.utf8EncodeChar := by
  rw [encode, String.toList_ofList]

theorem isText_iff {bytes : List UInt8} :
    IsText bytes ↔ ∃ cs : List Char, cs.flatMap String.utf8EncodeChar = bytes := by
  constructor
  · rintro ⟨s, rfl⟩
    exact ⟨s.toList, rfl⟩
  · rintro ⟨cs, rfl⟩
    exact ⟨String.ofList cs, encode_ofList cs⟩

theorem isText_encode (s : String) : IsText (encode s) := ⟨s, rfl⟩

theorem IsText.nil : IsText [] := ⟨"", rfl⟩

/-! ### Putting together -/

/-- Bytes are a text if they can be read from whatever offset on. -/
theorem isText_of_decodeFrom {n : Nat} {bytes : List UInt8} {cs : List Char}
    (h : decodeFrom n none bytes = .ok cs) : IsText bytes :=
  isText_iff.mpr ⟨cs, (eq_flatMap_of_decodeFrom h).symm⟩

/-- What follows a text is a text just if both together are. -/
theorem IsText.append_iff {a b : List UInt8} (ha : IsText a) : IsText (a ++ b) ↔ IsText b := by
  obtain ⟨s, rfl⟩ := ha
  constructor
  · intro h
    obtain ⟨cs, hcs⟩ := isText_iff.mp h
    have hd : decodeFrom 0 none (encode s ++ b) = .ok cs := by
      rw [← hcs]
      exact decodeFrom_flatMap 0 cs
    rw [encode, decodeFrom_flatMap_append] at hd
    cases hb : decodeFrom (0 + (s.toList.flatMap String.utf8EncodeChar).length) none b with
    | error f =>
      rw [hb] at hd
      cases hd
    | ok ds => exact isText_of_decodeFrom hb
  · rintro ⟨t, rfl⟩
    exact ⟨s ++ t, encode_append s t⟩

/-! ### Cutting at a byte of ASCII -/

/-- A character of ASCII is one byte; every byte of another character lies beyond ASCII. -/
theorem encodeChar_cases (c : Char) :
    (∃ b : UInt8, b < 0x80 ∧ String.utf8EncodeChar c = [b] ∧ b.toNat = c.toNat) ∨
      0x80 ≤ c.toNat ∧ ∀ b ∈ String.utf8EncodeChar c, ¬b < 0x80 := by
  have hv : c.val.toNat < 0x110000 := by
    have : c.val.toNat < 0xD800 ∨ 0xDFFF < c.val.toNat ∧ c.val.toNat < 0x110000 := c.valid
    omega
  have hc : c.toNat = c.val.toNat := rfl
  have hbeyond {n : Nat} (h₀ : 0x80 ≤ n) (h₁ : n < 256) : ¬UInt8.ofNat n < 0x80 :=
    not_ascii (by rw [toNat_ofNat_of_lt h₁]; exact h₀)
  rw [hc]
  generalize hn : c.val.toNat = v at hv
  simp only [String.utf8EncodeChar, hn]
  split
  · next h =>
    refine .inl ⟨UInt8.ofNat v, ?_, rfl, toNat_ofNat_of_lt (by omega)⟩
    rw [UInt8.lt_iff_toNat_lt, toNat_ofNat_of_lt (by omega)]
    simp only [UInt8.reduceToNat]
    omega
  · next h =>
    refine .inr ⟨by omega, ?_⟩
    split
    · intro b hb
      simp only [List.mem_cons, List.not_mem_nil, or_false] at hb
      rcases hb with rfl | rfl <;> exact hbeyond (by omega) (by omega)
    split
    · intro b hb
      simp only [List.mem_cons, List.not_mem_nil, or_false] at hb
      rcases hb with rfl | rfl | rfl <;> exact hbeyond (by omega) (by omega)
    · intro b hb
      simp only [List.mem_cons, List.not_mem_nil, or_false] at hb
      rcases hb with rfl | rfl | rfl | rfl <;> exact hbeyond (by omega) (by omega)

/-- A byte of ASCII stands for itself. -/
theorem isText_singleton {b : UInt8} (hb : b < 0x80) : IsText [b] :=
  isText_iff.mpr ⟨[Char.ofNat b.toNat], by simp [encodeChar_ascii hb]⟩

/-- Characters whose bytes hold one of ASCII fall into those before it and those after it. -/
theorem isText_of_flatMap {cs : List Char} {a c : List UInt8} {b : UInt8} (hb : b < 0x80)
    (h : cs.flatMap String.utf8EncodeChar = a ++ b :: c) : IsText a := by
  induction cs generalizing a with
  | nil => simp at h
  | cons ch cs ih =>
    rw [List.flatMap_cons] at h
    rcases List.append_eq_append_iff.mp h with ⟨a', rfl, hrest⟩ | ⟨x, hch, hbc⟩
    · have hfirst : IsText (String.utf8EncodeChar ch) := isText_iff.mpr ⟨[ch], by simp⟩
      exact hfirst.append_iff.mpr (ih hrest)
    · cases x with
      | nil =>
        rw [List.append_nil] at hch
        exact isText_iff.mpr ⟨[ch], by simp [hch]⟩
      | cons x xs =>
        -- the byte is the whole character, since it is one of ASCII
        rw [List.cons_append, List.cons.injEq] at hbc
        obtain ⟨rfl, -⟩ := hbc
        rcases encodeChar_cases ch with ⟨b', -, hone, -⟩ | ⟨-, hbeyond⟩
        · rw [hone] at hch
          have ha : a = [] := by
            cases a with
            | nil => rfl
            | cons d ds => simp at hch
          rw [ha]
          exact .nil
        · exact absurd hb (hbeyond b (by rw [hch]; simp))

/-- **A text may be cut at a byte of ASCII**: what stands on its sides are texts just if all of it
is. -/
theorem isText_append_cons_iff {a c : List UInt8} {b : UInt8} (hb : b < 0x80) :
    IsText (a ++ b :: c) ↔ IsText a ∧ IsText c := by
  have hcons (ha : IsText a) : IsText (a ++ b :: c) ↔ IsText c := by
    rw [ha.append_iff]
    exact (isText_singleton hb).append_iff (b := c)
  constructor
  · intro h
    obtain ⟨cs, hcs⟩ := isText_iff.mp h
    have ha := isText_of_flatMap hb hcs
    exact ⟨ha, (hcons ha).mp h⟩
  · rintro ⟨ha, hc⟩
    exact (hcons ha).mpr hc

/-! ### The longest text in front -/

/-- So many bytes in front are a text, and no more are. -/
structure LongestText (bytes : List UInt8) (n : Nat) : Prop where
  le_length : n ≤ bytes.length
  isText : IsText (bytes.take n)
  longest : ∀ m ≤ bytes.length, IsText (bytes.take m) → m ≤ n

theorem LongestText.unique {bytes : List UInt8} {m n : Nat} (hm : LongestText bytes m)
    (hn : LongestText bytes n) : m = n :=
  Nat.le_antisymm (hn.longest m hm.le_length hm.isText) (hm.longest n hn.le_length hn.isText)

/-- Inside a sequence, the bytes complete a character, whatever follows; or there is a fault, which
starts where the sequence does. -/
theorem decodeFrom_some_cases (n : Nat) (s : Sequence) (bytes : List UInt8) :
    (∃ length?, decodeFrom (n + s.seen) (some s) bytes = .error ⟨n, length?⟩) ∨
      ∃ c used rest, bytes = used ++ rest ∧ ∀ more,
        decodeFrom (n + s.seen) (some s) (used ++ more) =
          (decodeFrom (n + s.seen + used.length) none more).map (c :: ·) := by
  induction bytes generalizing s with
  | nil => exact .inl ⟨none, by rw [decodeFrom, Nat.add_sub_cancel]⟩
  | cons b bs ih =>
    by_cases hb : s.low ≤ b ∧ b ≤ s.high
    · by_cases ho : s.owed = 0
      · exact .inr ⟨_, [b], bs, rfl, fun more => decodeFrom_last _ hb ho more⟩
      · have hnext : n + s.seen + 1 = n + (s.next b).seen := rfl
        rcases ih (s.next b) with ⟨length?, herror⟩ | ⟨c, used, rest, rfl, hused⟩
        · exact .inl ⟨length?, by rw [decodeFrom_next _ hb ho, hnext, herror]⟩
        · refine .inr ⟨c, b :: used, rest, rfl, fun more => ?_⟩
          rw [List.cons_append, decodeFrom_next _ hb ho, hnext, hused, ← hnext, List.length_cons,
            Nat.add_assoc (n + s.seen), Nat.add_comm 1]
    · exact .inl ⟨some s.seen, by rw [decodeFrom, if_neg hb, Nat.add_sub_cancel]⟩

theorem seen_of_begin? {b : UInt8} {s : Sequence} (h : begin? b = some s) : s.seen = 1 := by
  unfold begin? at h
  split at h
  · cases h
  · split at h
    · cases h
      rfl
    · split at h
      · cases h
        rfl
      · split at h
        · cases h
          rfl
        · cases h

/-- Bytes begin with a character, or there is a fault where they begin. -/
theorem decodeFrom_cons_cases (n : Nat) (b : UInt8) (bs : List UInt8) :
    (∃ length?, decodeFrom n none (b :: bs) = .error ⟨n, length?⟩) ∨
      ∃ c rest, b :: bs = String.utf8EncodeChar c ++ rest := by
  by_cases hb : b < 0x80
  · exact .inr ⟨_, bs, by rw [encodeChar_ascii hb]; rfl⟩
  cases hs : begin? b with
  | none => exact .inl ⟨some 1, by rw [decodeFrom, if_neg hb, hs]⟩
  | some s =>
    have hseen := seen_of_begin? hs
    rcases decodeFrom_some_cases n s bs with ⟨length?, herror⟩ | ⟨c, used, rest, rfl, hused⟩
    · rw [hseen] at herror
      exact .inl ⟨length?, by rw [decodeFrom_begin n hb hs, herror]⟩
    · have hone : decodeFrom n none (b :: used) = .ok [c] := by
        have h := hused []
        rw [hseen, List.append_nil] at h
        rw [decodeFrom_begin n hb hs, h]
        rfl
      have hchar := eq_flatMap_of_decodeFrom hone
      rw [List.flatMap_singleton] at hchar
      exact .inr ⟨c, rest, by rw [← hchar]; rfl⟩

theorem length_encodeChar_pos (c : Char) : 0 < (String.utf8EncodeChar c).length := by
  rcases encodeChar_cases c with ⟨b, -, h, -⟩ | ⟨hc, -⟩
  · simp [h]
  · rw [List.length_pos_iff]
    intro h
    have := decodeFrom_encodeChar 0 c []
    rw [h] at this
    cases this

/-- A fault starts behind a text. -/
theorem isText_of_decodeFrom_error {n : Nat} {bytes : List UInt8} {f : Fault}
    (h : decodeFrom n none bytes = .error f) :
    ∃ k ≤ bytes.length, f.start = n + k ∧ IsText (bytes.take k) := by
  induction hlen : bytes.length using Nat.strongRecOn generalizing n bytes with
  | ind len ih =>
    cases bytes with
    | nil => cases h
    | cons b bs =>
      rcases decodeFrom_cons_cases n b bs with ⟨length?, herror⟩ | ⟨c, rest, hbytes⟩
      · rw [herror] at h
        cases h
        exact ⟨0, Nat.zero_le _, rfl, .nil⟩
      · rw [hbytes] at h hlen ⊢
        rw [decodeFrom_encodeChar] at h
        rw [List.length_append] at hlen
        have hpos := length_encodeChar_pos c
        cases hrest : decodeFrom (n + (String.utf8EncodeChar c).length) none rest with
        | ok cs =>
          rw [hrest] at h
          cases h
        | error g =>
          rw [hrest] at h
          cases h
          obtain ⟨k, hk, hstart, htext⟩ := ih rest.length (by omega) hrest rfl
          have hchar : IsText (String.utf8EncodeChar c) := isText_iff.mpr ⟨[c], by simp⟩
          refine ⟨(String.utf8EncodeChar c).length + k, by omega, by omega, ?_⟩
          rw [List.take_length_add_append]
          exact hchar.append_iff.mpr htext

/-- **A fault tells how far bytes are a text.** -/
theorem longestText_of_error {bytes : List UInt8} {f : Fault} (h : decode bytes = .error f) :
    LongestText bytes f.start := by
  have hfrom : decodeFrom 0 none bytes = .error f := by
    unfold decode at h
    cases hd : decodeFrom 0 none bytes with
    | ok cs =>
      rw [hd] at h
      cases h
    | error g =>
      rw [hd] at h
      cases h
      rfl
  obtain ⟨k, hk, hstart, htext⟩ := isText_of_decodeFrom_error hfrom
  rw [Nat.zero_add] at hstart
  refine ⟨hstart ▸ hk, hstart ▸ htext, fun m hm hprefix => ?_⟩
  -- the fault lies in what follows a text in front, however long it is
  obtain ⟨cs, hcs⟩ := isText_iff.mp hprefix
  have hlength : (cs.flatMap String.utf8EncodeChar).length = m := by
    rw [hcs, List.length_take, Nat.min_eq_left hm]
  rw [← List.take_append_drop m bytes, ← hcs, decodeFrom_flatMap_append, hlength,
    Nat.zero_add] at hfrom
  cases hrest : decodeFrom m none (bytes.drop m) with
  | ok ds =>
    rw [hrest] at hfrom
    cases hfrom
  | error g =>
    rw [hrest] at hfrom
    cases hfrom
    obtain ⟨j, -, hj, -⟩ := isText_of_decodeFrom_error hrest
    omega

/-- A sequence that a byte of ASCII breaks off, behind a character of two bytes. -/
example : decode [0xC3, 0xA9, 0x61, 0xE2, 0x82, 0x0A, 0x62] = .error ⟨3, some 2⟩ := by
  decide +kernel

end GlyphRebase.Utf8
