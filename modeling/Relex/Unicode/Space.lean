/-
White space: the separators, the controls that break a line, the
tabulators, and the four information separators U+001C to U+001F.
-/
import Relex.Unicode.Ranges

namespace Relex.Unicode

/-- The white space above ASCII. -/
def spaceRanges : Ranges :=
  #[(0x85, 0x85), (0xa0, 0xa0), (0x1680, 0x1680), (0x2000, 0x200a),
   (0x2028, 0x2029), (0x202f, 0x202f), (0x205f, 0x205f), (0x3000, 0x3000)]

/-- Is the character white space? -/
def isSpace (c : Char) : Bool :=
  if c.toNat < 0x80 then
    c == ' ' || (0x09 ≤ c.toNat && c.toNat ≤ 0x0d)
      || (0x1c ≤ c.toNat && c.toNat ≤ 0x1f)
  else spaceRanges.covers c

end Relex.Unicode
