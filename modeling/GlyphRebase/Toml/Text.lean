import GlyphRebase.Number.Integer
import GlyphRebase.Toml.Scan

/-!
# Strings and keys

A string stands between quotation marks, with escapes, or between apostrophes, without. With three
marks on either side it may go over several lines: the line end right after the opening is left
out, every other one becomes a line feed, and one or two marks may stand anywhere, also right before
the closing three.
-/

namespace GlyphRebase.Toml

open Scan

/-- Does `c` stand for itself between quotation marks? -/
def isPlain (c : Char) : Bool := isComment c && c ≠ '"' && c ≠ '\\'

/-- Does `c` stand for itself between apostrophes? -/
def isLiteral (c : Char) : Bool := isComment c && c ≠ '\''

/-- The character with the given number, in `n` hexadecimal digits. -/
def codePoint : Nat → Nat → Scan Char
  | 0, value => if value.isValidChar then return Char.ofNat value else failure
  | n + 1, value => do
    let c ← char Number.isHex
    codePoint n (value * 16 + (Number.digit? 16 c).getD 0)

/-- What a backslash and the characters after it stand for. -/
def escaped : Scan Char := do
  word ['\\']
  match ← char fun _ => true with
  | 'b' => return '\x08'
  | 'f' => return '\x0c'
  | 'n' => return '\n'
  | 'r' => return '\r'
  | 't' => return '\t'
  | 'u' => codePoint 4 0
  | 'U' => codePoint 8 0
  | '"' => return '"'
  | '\\' => return '\\'
  | _ => failure

/-- A string in one line, with escapes. -/
def basicString : Scan String := do
  word ['"']
  let parts ← many (run1 isPlain <|> (do return [← escaped]))
  word ['"']
  return String.ofList parts.flatten

/-- A string in one line, without escapes. -/
def literalString : Scan String := do
  word ['\'']
  let text ← run isLiteral
  word ['\'']
  return String.ofList text

/-- A line end inside a string. -/
def innerLineEnd : Scan (List Char) := do
  lineEnd
  return ['\n']

/-- A backslash at the end of a line, with all blanks and line ends after it. -/
def joinedLines : Scan (List Char) := do
  word ['\\']
  gap
  lineEnd
  let _ ← many ((do let _ ← run1 isGap) <|> lineEnd)
  return []

/-- One or two marks that do not close the string. -/
def innerMarks (mark : Char) : Scan (List Char) := do
  let two ← follows (word [mark, mark])
  let marks := if two then [mark, mark] else [mark]
  word marks
  if ← follows (char (· ≠ mark)) then return marks else failure

/-- Three marks that close a string, after one or two that belong to it. -/
def closing (mark : Char) : Scan (List Char) := do
  let close := [mark, mark, mark]
  if ← follows (word (mark :: mark :: close)) then
    word (mark :: mark :: close)
    return [mark, mark]
  else if ← follows (word (mark :: close)) then
    word (mark :: close)
    return [mark]
  else
    word close
    return []

/-- A string over several lines, whose marks have parts of the given kind between them. -/
def longString (mark : Char) (part : Scan (List Char)) : Scan String := do
  word [mark, mark, mark]
  let _ ← maybe lineEnd
  let parts ← many (part <|> innerMarks mark)
  return String.ofList (parts.flatten ++ (← closing mark))

/-- A string over several lines, with escapes. -/
def longBasicString : Scan String :=
  longString '"' (run1 isPlain <|> joinedLines <|> (do return [← escaped]) <|> innerLineEnd)

/-- A string over several lines, without escapes. -/
def longLiteralString : Scan String :=
  longString '\'' (run1 isLiteral <|> innerLineEnd)

/-- A string of any kind. -/
def string : Scan String :=
  longBasicString <|> basicString <|> longLiteralString <|> literalString

/-! ### Keys -/

/-- May `c` stand in a key without quotation marks? -/
def isBare (c : Char) : Bool := c.isAlphanum || c == '-' || c == '_'

/-- A key, bare or quoted. -/
def simpleKey : Scan String :=
  basicString <|> literalString <|> (do return String.ofList (← run1 isBare))

/-- One part of a dotted key, with the blanks around it. -/
def keyPart : Scan String := do
  gap
  let key ← simpleKey
  gap
  return key

/-- The most parts that a dotted key has. -/
def mostKeyParts : Nat := 79

/-- A key: one part or several with dots between them. -/
def dottedKey : Scan (List String) := do
  let parts ← separated keyPart (word ['.'])
  if mostKeyParts < parts.length then failure else return parts

end GlyphRebase.Toml
