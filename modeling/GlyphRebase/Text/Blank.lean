/-!
# Blanks and literal words

What separates the parts of a glyph entry. A blank is a character with the Unicode property
White_Space: 25 characters, of which six lie in ASCII. The words of the layout (`/*`, `*/`, …)
are stripped from the front of a text by `after`.

Texts are lists of characters here, so that the statements about scanning are statements about
lists.
-/

namespace GlyphRebase.Text

/-- Has `c` the property White_Space? -/
def isBlank (c : Char) : Bool :=
  let n := c.toNat
  (0x09 ≤ n && n ≤ 0x0D) || n == 0x20 || n == 0x85 || n == 0xA0 || n == 0x1680 ||
    (0x2000 ≤ n && n ≤ 0x200A) || n == 0x2028 || n == 0x2029 || n == 0x202F || n == 0x205F ||
    n == 0x3000

/-- The text without the blanks it starts with. -/
def skipBlanks (cs : List Char) : List Char := cs.dropWhile isBlank

/-- What follows `word` at the front of the text, if the text starts with it. -/
def after (word cs : List Char) : Option (List Char) :=
  if word.isPrefixOf cs then some (cs.drop word.length) else none

/-- Stripping a word succeeds exactly on the texts that continue it. -/
theorem after_eq_some_iff {word cs rest : List Char} :
    after word cs = some rest ↔ cs = word ++ rest := by
  unfold after
  constructor
  · intro h
    split at h
    · next hp =>
      obtain ⟨t, rfl⟩ := List.isPrefixOf_iff_prefix.mp hp
      simp_all
    · cases h
  · rintro rfl
    simp

end GlyphRebase.Text
