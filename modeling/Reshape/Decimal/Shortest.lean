import Reshape.Binary.Round

/-!
# The shortest numeral that reads back

Among the decimals that round to a given binary number, the one with the fewest digits, and among
those the nearest; of two equally near the one with the greater absolute value. If a decimal with
`n` digits rounds to the number, so does one of the two decimals with `n` digits next to it, which
are the only ones tried.

## Main definitions

* `Binary.exact`: a finite number as a decimal, without loss.
* `Binary.neighbours`: the two decimals of a given length next to another one.
* `Binary.shortest`: the decimal described above.
* `Binary.numeral`: its text.
-/

namespace Reshape.Binary

variable {f : Format}

/-- A finite number as a decimal: what is halved so many times is multiplied by five as often, and
its point moved. -/
def exact (b : Binary f) : Decimal :=
  ⟨b.negative, b.significand * 2 ^ (b.shift - f.scale) * 5 ^ (f.scale - b.shift),
    -(f.scale - b.shift : Nat)⟩

/-- The two decimals with `n` digits next to a decimal with `length` digits, the nearer one
first. -/
def neighbours (d : Decimal) (length n : Nat) : List Decimal :=
  let dropped := length - n
  let unit := 10 ^ dropped
  let below : Decimal := ⟨d.negative, d.coefficient / unit, d.exponent + dropped⟩
  let above : Decimal := ⟨d.negative, d.coefficient / unit + 1, d.exponent + dropped⟩
  if 2 * (d.coefficient % unit) < unit then [below, above] else [above, below]

/-- The nearest of the given decimals that rounds to the number. -/
def firstHit? (b : Binary f) (ds : List Decimal) : Option Decimal :=
  ds.find? fun d => ofDecimal f d = b

/-- Enough digits to tell all numbers of the format apart: one more than the digits of the
greatest fraction. -/
def enough (f : Format) : Nat := (Decimal.digits (2 ^ (f.fractionBits + 1))).length + 1

/-- The shortest decimal that rounds to a finite number. -/
def shortest (b : Binary f) : Decimal :=
  let d := b.exact
  let length := (Decimal.digits d.coefficient).length
  let candidate :=
    (List.range (enough f)).findSome? fun n => b.firstHit? (neighbours d length (n + 1))
  (candidate.getD d).reduce

/-- The numeral of a finite number: its shortest decimal, written without an exponent. -/
def numeral (b : Binary f) : List Char := b.shortest.positional

example : enough .single = 9 ∧ enough .double = 17 := by decide +kernel

example : (ofDecimal .double ⟨false, 1, -1⟩).numeral = "0.1".toList := by decide +kernel

example : (ofDecimal .single ⟨true, 0, 0⟩).numeral = "-0.0".toList := by decide +kernel

end Reshape.Binary
