/-!
# Blank characters

The blank characters of Unicode: the ASCII blanks and line breaks, the next-line control, and the
space and line separators.  The zero-width space and the byte order mark are not among them.
-/

namespace Assets.Text

/-- A Unicode blank. -/
def isBlank (c : Char) : Bool :=
  let n := c.toNat
  (0x9 ≤ n && n ≤ 0xd) || n == 0x20 || n == 0x85 || n == 0xa0 || n == 0x1680 ||
    (0x2000 ≤ n && n ≤ 0x200a) || n == 0x2028 || n == 0x2029 || n == 0x202f || n == 0x205f ||
    n == 0x3000

def dropBlanks (cs : List Char) : List Char := cs.dropWhile isBlank

end Assets.Text
