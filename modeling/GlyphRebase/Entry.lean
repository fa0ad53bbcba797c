import GlyphRebase.Number.Integer
import GlyphRebase.Text.Blank

/-!
# Glyph entries

A glyph table lists entries, one a line: a decimal index, a comma, and a block comment that holds
the glyph code in parentheses,

    49200, /* (0xC030) */

`Entry.scan` recognises such a line by one scan from left to right, in which nothing is ever taken
back: after each part the next character decides. Blanks may stand before the index and around the
parts of the comment; whatever follows the comment is ignored.

`Entry.render` writes an entry in the layout of the rebased table,

    ␠␠128,⇥/* 0xC030 */␊
-/

namespace GlyphRebase

open Text Number

/-- An index and the glyph code that belongs to it. -/
structure Entry where
  /-- Where the glyph stands in the table. -/
  index : Int64
  /-- The glyph code as written, with its `0x`. -/
  code : String
  deriving DecidableEq, Repr

namespace Entry

/-- The entry at the start of a text, if there is one. An index beyond 64 bits makes no entry. -/
def scan (cs : List Char) : Option Entry := do
  let cs := skipBlanks cs
  let index ← (readMagnitude 10 (cs.takeWhile isDecimal)).toOption
  let cs ← after [','] (cs.dropWhile isDecimal)
  let cs ← after ['/', '*'] (skipBlanks cs)
  let cs ← after ['('] (skipBlanks cs)
  let cs ← after ['0', 'x'] (skipBlanks cs)
  let digits := cs.takeWhile isHex
  guard (!digits.isEmpty)
  let cs ← after [')'] (skipBlanks (cs.dropWhile isHex))
  let _ ← after ['*', '/'] (skipBlanks cs)
  return ⟨index, String.ofList ('0' :: 'x' :: digits)⟩

/-- The entry a line starts with, if there is one. -/
def ofLine? (line : String) : Option Entry := scan line.toList

/-- The line of the rebased table for this entry, with its line feed. -/
def render (e : Entry) : String :=
  "  " ++ Number.render e.index ++ ",\t/* " ++ e.code ++ " */\n"

end Entry

end GlyphRebase
