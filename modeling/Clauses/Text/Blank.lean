/-!
# Blank characters

The characters with the Unicode property *White_Space*: 25 code points, of which core's
`Char.isWhitespace` knows four.
-/

namespace Clauses.Text

/-- White space: tab to carriage return, space, and the space separators beyond ASCII. -/
def isBlank (c : Char) : Bool :=
  let n := c.toNat
  (0x09 ≤ n && n ≤ 0x0D) || n == 0x20 || n == 0x85 || n == 0xA0 || n == 0x1680
    || (0x2000 ≤ n && n ≤ 0x200A) || n == 0x2028 || n == 0x2029 || n == 0x202F || n == 0x205F
    || n == 0x3000

/-- The text without its leading white space. -/
def dropBlanks (s : List Char) : List Char := s.dropWhile isBlank

/-- The first character that is not blank. -/
def firstVisible? (s : List Char) : Option Char := (dropBlanks s).head?

end Clauses.Text
