/-!
# White space

The characters that have the Unicode property `White_Space`. They separate
names at the prompt, and the prompt drops them from both ends of an input. The
reader itself knows only four blanks, see the lexer.
-/

namespace DualScope.Text

/-- Whether the character has the property `White_Space`. -/
def isSpace (c : Char) : Bool :=
  let n := c.toNat
  (0x09 ≤ n && n ≤ 0x0D) || n = 0x20 || n = 0x85 || n = 0xA0 || n = 0x1680
    || (0x2000 ≤ n && n ≤ 0x200A) || n = 0x2028 || n = 0x2029 || n = 0x202F
    || n = 0x205F || n = 0x3000

/-- The text without the white space at its two ends. -/
def trim (cs : List Char) : List Char :=
  ((cs.dropWhile isSpace).reverse.dropWhile isSpace).reverse

end DualScope.Text
