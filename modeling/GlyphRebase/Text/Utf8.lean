/-!
# UTF-8

Decoding takes one byte at a time and stands either between characters or inside a sequence, of
which it knows how many bytes are owed and between which bounds the next one lies. So a text is
refused at the first byte that rules it out, and the fault tells where the sequence of that byte
starts and how many bytes of it were in order.
-/

namespace GlyphRebase.Utf8

/-- Why bytes are no text. -/
structure Fault where
  /-- Where the first sequence starts that is in disorder. -/
  start : Nat
  /-- How many bytes of it are in order, or the bytes end inside it. -/
  length? : Option Nat
  deriving DecidableEq, Repr

/-- The fault in words. -/
def Fault.message (f : Fault) : String :=
  match f.length? with
  | some n =>
    "invalid utf-8 sequence of " ++ toString n ++ " bytes from index " ++ toString f.start
  | none => "incomplete utf-8 byte sequence from index " ++ toString f.start

/-- A sequence that has begun. -/
structure Sequence where
  /-- How many bytes of it there were. -/
  seen : Nat
  /-- How many bytes are owed after the next one. -/
  owed : Nat
  /-- The least that the next byte may be. -/
  low : UInt8
  /-- The greatest that the next byte may be. -/
  high : UInt8
  /-- The bits of the code point so far. -/
  value : Nat
  deriving DecidableEq, Repr

/-- The sequence that a byte from `0x80` up begins, if it can begin one. The bounds leave out what
has a shorter form, the surrogates, and what lies beyond the last code point. -/
def begin? (b : UInt8) : Option Sequence :=
  if b < 0xC2 then none
  else if b < 0xE0 then some ⟨1, 0, 0x80, 0xBF, b.toNat - 0xC0⟩
  else if b < 0xF0 then
    some ⟨1, 1, if b = 0xE0 then 0xA0 else 0x80, if b = 0xED then 0x9F else 0xBF, b.toNat - 0xE0⟩
  else if b < 0xF5 then
    some ⟨1, 2, if b = 0xF0 then 0x90 else 0x80, if b = 0xF4 then 0x8F else 0xBF, b.toNat - 0xF0⟩
  else none

/-- The sequence after one more byte, of which others are owed. -/
def Sequence.next (s : Sequence) (b : UInt8) : Sequence :=
  ⟨s.seen + 1, s.owed - 1, 0x80, 0xBF, s.value * 64 + (b.toNat - 0x80)⟩

/-- Decodes bytes from an offset on, between characters or inside a sequence. -/
def decodeFrom : Nat → Option Sequence → List UInt8 → Except Fault (List Char)
  | _, none, [] => .ok []
  | at_, some s, [] => .error ⟨at_ - s.seen, none⟩
  | at_, none, b :: bs =>
    if b < 0x80 then (decodeFrom (at_ + 1) none bs).map (Char.ofNat b.toNat :: ·)
    else
      match begin? b with
      | none => .error ⟨at_, some 1⟩
      | some s => decodeFrom (at_ + 1) (some s) bs
  | at_, some s, b :: bs =>
    if s.low ≤ b ∧ b ≤ s.high then
      if s.owed = 0 then
        (decodeFrom (at_ + 1) none bs).map (Char.ofNat (s.value * 64 + (b.toNat - 0x80)) :: ·)
      else decodeFrom (at_ + 1) (some (s.next b)) bs
    else .error ⟨at_ - s.seen, some s.seen⟩

/-- The text that the bytes stand for, or what is wrong with them. -/
def decode (bytes : List UInt8) : Except Fault String :=
  (decodeFrom 0 none bytes).map String.ofList

/-- The bytes of a text. -/
def encode (s : String) : List UInt8 := s.toList.flatMap String.utf8EncodeChar

end GlyphRebase.Utf8
