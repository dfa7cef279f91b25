/-!
# Decimal digits of all scripts

The characters of the Unicode general category Nd. Each script's digits zero to nine are ten
consecutive code points, so the category is a list of its zeros.

## Main definitions

* `decimalZeros`: the code point of every digit zero.
* `isDecimalDigit`: membership in the category.
-/

namespace Reshape.Text

/-- The code points of the characters with decimal digit value zero. -/
def decimalZeros : List Nat :=
  [0x30, 0x660, 0x6F0, 0x7C0, 0x966, 0x9E6, 0xA66, 0xAE6, 0xB66, 0xBE6, 0xC66, 0xCE6, 0xD66,
    0xDE6, 0xE50, 0xED0, 0xF20, 0x1040, 0x1090, 0x17E0, 0x1810, 0x1946, 0x19D0, 0x1A80, 0x1A90,
    0x1B50, 0x1BB0, 0x1C40, 0x1C50, 0xA620, 0xA8D0, 0xA900, 0xA9D0, 0xA9F0, 0xAA50, 0xABF0,
    0xFF10, 0x104A0, 0x10D30, 0x10D40, 0x11066, 0x110F0, 0x11136, 0x111D0, 0x112F0, 0x11450,
    0x114D0, 0x11650, 0x116C0, 0x116D0, 0x116DA, 0x11730, 0x118E0, 0x11950, 0x11BF0, 0x11C50,
    0x11D50, 0x11DA0, 0x11F50, 0x16130, 0x16A60, 0x16AC0, 0x16B50, 0x16D70, 0x1CCF0, 0x1D7CE, 0x1D7D8,
    0x1D7E2, 0x1D7EC, 0x1D7F6, 0x1E140, 0x1E2F0, 0x1E4F0, 0x1E5F1, 0x1E950, 0x1FBF0]

/-- The characters of the general category Nd. -/
def isDecimalDigit (c : Char) : Bool :=
  decimalZeros.any fun z => z ≤ c.toNat && c.toNat < z + 10

example : decimalZeros.length = 76 := by decide

/-- The table is in ascending order and its runs of ten do not overlap. -/
example : (decimalZeros.zip decimalZeros.tail).all (fun p => p.1 + 10 ≤ p.2) = true := by decide

/-- The ASCII digits belong to the category. -/
theorem isDecimalDigit_of_isDigit {c : Char} (h : c.isDigit = true) : isDecimalDigit c = true := by
  simp only [Char.isDigit, Bool.and_eq_true, decide_eq_true_eq, UInt32.le_iff_toNat_le,
    ge_iff_le] at h
  have hc : 0x30 ≤ c.toNat ∧ c.toNat < 0x30 + 10 := by
    change 48 ≤ c.val.toNat ∧ c.val.toNat < 58
    have : '0'.val.toNat = 48 := rfl
    have : '9'.val.toNat = 57 := rfl
    omega
  simp [isDecimalDigit, decimalZeros, hc.1, hc.2]

end Reshape.Text
