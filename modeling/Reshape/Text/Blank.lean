/-!
# White space

The characters with the Unicode property White_Space, and trimming a text of them on both sides.

## Main definitions

* `isBlank`: the property, as a test on one character.
* `trim`: a text without the blanks at its two ends.
-/

namespace Reshape.Text

/-- The characters of the Unicode property White_Space. -/
def isBlank (c : Char) : Bool :=
  let n := c.toNat
  (0x09 ≤ n && n ≤ 0x0D) || n == 0x20 || n == 0x85 || n == 0xA0 || n == 0x1680 ||
    (0x2000 ≤ n && n ≤ 0x200A) || n == 0x2028 || n == 0x2029 || n == 0x202F || n == 0x205F ||
    n == 0x3000

/-- A text without its trailing blanks. -/
def trimEnd (cs : List Char) : List Char :=
  (cs.reverse.dropWhile isBlank).reverse

/-- A text without the blanks at either end. -/
def trim (cs : List Char) : List Char :=
  trimEnd (cs.dropWhile isBlank)

/-- Blanks inside a text stay. -/
example : trim " a\u00a0b\n".toList = "a\u00a0b".toList := by decide

end Reshape.Text
