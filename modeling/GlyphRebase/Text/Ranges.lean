/-!
# Ranges of characters

A class of characters is given by the ranges of its code points, each with its first and its last,
in ascending order.
-/

namespace GlyphRebase.Text

/-- Is `c` in one of the ranges? -/
def inRanges (ranges : List (Nat × Nat)) (c : Char) : Bool :=
  ranges.any fun r => r.1 ≤ c.toNat && c.toNat ≤ r.2

end GlyphRebase.Text
