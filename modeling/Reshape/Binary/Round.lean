import Reshape.Binary.Basic
import Reshape.Decimal.Basic

/-!
# Rounding to the nearest number

Every way into a binary format goes through one function: round a quotient to the nearest number
of the format, a tie to the one with an even fraction. Numbers at least half a step beyond the
greatest finite one become infinite.

## Main definitions

* `divRound`: a quotient rounded to an integer, ties to even.
* `Binary.round`: a quotient rounded to a format.
* `Binary.ofDecimal`, `Binary.ofInt`, `Binary.cast`: rounding of decimals, integers and numbers of
  another format.
* `Binary.read?`: the number nearest to what a numeral denotes; the words for infinities and NaN
  are numerals too.
-/

namespace Reshape

/-- A quotient rounded to the nearest integer, a tie to the even one. -/
def divRound (num den : Nat) : Nat :=
  let q := num / den
  let r := num % den
  if 2 * r < den then q
  else if den < 2 * r then q + 1
  else if q % 2 = 0 then q else q + 1

theorem divRound_of_dvd {num den : Nat} (h : num % den = 0) (hd : 0 < den) :
    divRound num den = num / den := by
  simp [divRound, h, hd]

namespace Format

/-- The bits of the number nearest to `num / den`, which is positive or zero. The integer part of
the quotient, in units of the least number, decides how far the fraction is shifted; a fraction
that rounds up to the next power of two carries into the exponent. -/
def roundMagnitude (f : Format) (num den : Nat) : Nat :=
  let scaled := num * 2 ^ f.scale
  let shift := Nat.log2 (scaled / den) - f.fractionBits
  min f.infinity (shift * 2 ^ f.fractionBits + divRound scaled (den * 2 ^ shift))

theorem roundMagnitude_lt (f : Format) (num den : Nat) :
    f.roundMagnitude num den < 2 ^ f.width :=
  Nat.lt_of_le_of_lt (Nat.min_le_left _ _) f.infinity_lt

end Format

namespace Binary

variable {f : Format}

/-- The number nearest to `± num / den`. -/
def round (f : Format) (negative : Bool) (num den : Nat) : Binary f :=
  ⟨negative, f.roundMagnitude num den, f.roundMagnitude_lt num den⟩

/-- The number nearest to an integer. -/
def ofInt (f : Format) (n : Int) : Binary f :=
  round f (n < 0) n.natAbs 1

/-- The number nearest to a decimal. A decimal with so many digits before the point that it is
beyond every finite number, or with so many zeros behind it that it is nearest to zero, is decided
without writing out its power of ten: ten is more than the third power of two. -/
def ofDecimal (f : Format) (d : Decimal) : Binary f :=
  let length := (Decimal.digits d.coefficient).length
  if d.coefficient = 0 then zero f d.negative
  else if 2 ^ f.exponentBits ≤ 3 * (d.exponent + length - 1) then infinity f d.negative
  else if 3 * (d.exponent + length) ≤ -(f.scale + 1 : Int) then zero f d.negative
  else
    match d.exponent with
    | .ofNat n => round f d.negative (d.coefficient * 10 ^ n) 1
    | .negSucc n => round f d.negative d.coefficient (10 ^ (n + 1))

/-- The number of another format nearest to a number; a NaN stays one. -/
def cast (g : Format) (b : Binary f) : Binary g :=
  if b.isNaN then nan g
  else if b.isFinite then round g b.negative b.quanta (2 ^ f.scale)
  else infinity g b.negative

/-- The number that a numeral or a word denotes, rounded to the format. -/
def read? (f : Format) (cs : List Char) : Option (Binary f) :=
  let (negative, unsigned) := Decimal.sign cs
  let word := unsigned.map Char.toLower
  if word = "inf".toList ∨ word = "infinity".toList then some (infinity f negative)
  else if word = "nan".toList then some { nan f with negative }
  else (Decimal.read? cs).map (ofDecimal f)

/-- The finite number that a numeral denotes, rounded to the format. -/
def readFinite? (f : Format) (cs : List Char) : Option (Binary f) :=
  (read? f cs).filter isFinite

example : ofDecimal .double ⟨false, 1, -1⟩ = ofBits .double 0x3FB999999999999A := by decide +kernel

example : ofDecimal .single ⟨true, 5, -324⟩ = zero .single true := by decide +kernel

example : ofInt .double (2 ^ 53 + 1) = ofInt .double (2 ^ 53) := by decide +kernel

end Binary

end Reshape
