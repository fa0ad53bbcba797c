import GlyphRebase.Number.Integer

/-!
# Number literals

A number that is given by hand is decimal, or hexadecimal after `0x` or `0X`. The digits may have a
sign before them, also the hexadecimal ones after their mark.
-/

namespace GlyphRebase.Number

/-- The number that a literal stands for. -/
def readLiteral (text : String) : Except Fault Int64 :=
  match text.toList with
  | '0' :: 'x' :: digits | '0' :: 'X' :: digits => readSigned 16 digits
  | cs => readSigned 10 cs

end GlyphRebase.Number
