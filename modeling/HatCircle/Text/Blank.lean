/-!
# Blank characters

Formulas may be spaced freely and lists of hats may be padded. This file says
which characters count as blank, and defines the two operations that make
blanks disappear: `compact` removes all of them, `trim` those at the two ends.
-/

namespace HatCircle

/-- The characters with the Unicode property `White_Space`. The zero-width space,
the byte order mark and the information separators do not have it. -/
def isBlank (c : Char) : Bool :=
  let n := c.toNat
  (0x09 ≤ n && n ≤ 0x0D) || n == 0x20 || n == 0x85 || n == 0xA0 || n == 0x1680 ||
    (0x2000 ≤ n && n ≤ 0x200A) || n == 0x2028 || n == 0x2029 || n == 0x202F ||
    n == 0x205F || n == 0x3000

namespace Text

def compact (text : List Char) : List Char :=
  text.filter fun c => !isBlank c

def trimStart (text : List Char) : List Char :=
  text.dropWhile isBlank

def trim (text : List Char) : List Char :=
  (trimStart (trimStart text).reverse).reverse

end Text

end HatCircle
