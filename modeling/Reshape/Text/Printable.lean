import Reshape.Text.ExtendingMark
import Reshape.Text.Unassigned

/-!
# Printable characters

Characters that can be shown as they are. The others are controls, formats, separators other than
the space, private characters, letters without a shape, marks that attach to the character before
them, and code points that stand for nothing.

## Main definitions

* `shapeless`: the runs of controls, formats, separators and private characters.
* `fillers`: the letters without a shape.
* `isPrintable`: whether a character can be shown.
-/

namespace Reshape.Text

/-- The code points of the general categories Cc, Cf, Co, Zs, Zl and Zp, without the space. -/
def shapeless : Runs :=
  [(0x0, 0x1F), (0x7F, 0xA0), (0xAD, 0xAD), (0x600, 0x605), (0x61C, 0x61C), (0x6DD, 0x6DD),
    (0x70F, 0x70F), (0x890, 0x891), (0x8E2, 0x8E2), (0x1680, 0x1680), (0x180E, 0x180E),
    (0x2000, 0x200F), (0x2028, 0x202F), (0x205F, 0x2064), (0x2066, 0x206F), (0x3000, 0x3000),
    (0xE000, 0xF8FF), (0xFEFF, 0xFEFF), (0xFFF9, 0xFFFB), (0x110BD, 0x110BD), (0x110CD, 0x110CD),
    (0x13430, 0x1343F), (0x1BCA0, 0x1BCA3), (0x1D173, 0x1D17A), (0xE0001, 0xE0001),
    (0xE0020, 0xE007F), (0xF0000, 0xFFFFD), (0x100000, 0x10FFFD)]

/-- The letters that fill the place of a missing part of a syllable and have no shape of their
own: those with the property Default_Ignorable_Code_Point. -/
def fillers : Runs := [(0x115F, 0x1160), (0x3164, 0x3164), (0xFFA0, 0xFFA0)]

/-- Whether a character can be shown as it is. -/
def isPrintable (c : Char) : Bool :=
  !(shapeless.covers c.toNat || fillers.covers c.toNat || isExtendingMark c || isUnassigned c)

example : shapeless.ascending = true ∧ shapeless.length = 28 ∧ shapeless.size = 137721 := by
  decide +kernel

example : isPrintable ' ' = true ∧ isPrintable 'é' = true ∧ isPrintable '\x7f' = false := by
  decide +kernel

end Reshape.Text
