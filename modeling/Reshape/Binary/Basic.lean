/-!
# Binary floating point numbers

The numbers of a binary interchange format: sign, exponent and fraction. A number is held as its
sign and its remaining bits, whose order as natural numbers is the order of the absolute values,
with the infinity and then the NaNs above every finite number.

## Main definitions

* `Format`: how many bits hold exponent and fraction; `Format.single` and `Format.double`.
* `Binary`: a number of a format.
* `Binary.quanta`: the exact absolute value of a finite number, in units of the least one.
* `Binary.compare?`: the order of two numbers, in which a NaN is comparable with nothing.
-/

namespace Reshape

-- Powers are those of the core library, whatever algebra is in scope.
attribute [scoped instance (high)] instPowNat

/-- The layout of a binary floating point format. -/
structure Format where
  exponentBits : Nat
  fractionBits : Nat
deriving DecidableEq, Repr

namespace Format

/-- The format of 32 bits. -/
def single : Format := ⟨8, 23⟩

/-- The format of 64 bits. -/
def double : Format := ⟨11, 52⟩

/-- How many bits a number has beside its sign. -/
def width (f : Format) : Nat := f.exponentBits + f.fractionBits

/-- The least positive number of the format is `2 ^ (-scale)`. -/
def scale (f : Format) : Nat := 2 ^ (f.exponentBits - 1) - 2 + f.fractionBits

/-- The bits of the infinity, beside its sign. -/
def infinity (f : Format) : Nat := (2 ^ f.exponentBits - 1) * 2 ^ f.fractionBits

/-- The bits of a NaN, beside its sign. -/
def nan (f : Format) : Nat := 2 ^ f.width - 1

theorem infinity_lt (f : Format) : f.infinity < 2 ^ f.width := by
  have he : 0 < 2 ^ f.exponentBits := Nat.two_pow_pos _
  have hf : 0 < 2 ^ f.fractionBits := Nat.two_pow_pos _
  rw [width, Nat.pow_add]
  exact Nat.mul_lt_mul_of_pos_right (by omega) hf

theorem nan_lt (f : Format) : f.nan < 2 ^ f.width := by
  have : 0 < 2 ^ f.width := Nat.two_pow_pos _
  simp only [nan]
  omega

end Format

/-- A number of a binary floating point format. -/
structure Binary (f : Format) where
  negative : Bool
  /-- All bits but the sign. -/
  magnitude : Nat
  magnitude_lt : magnitude < 2 ^ f.width
deriving DecidableEq, Repr

namespace Binary

variable {f : Format}

/-! ## Bits -/

/-- The number with the given bits; bits beyond the format's size are ignored. -/
def ofBits (f : Format) (bits : Nat) : Binary f where
  negative := bits / 2 ^ f.width % 2 = 1
  magnitude := bits % 2 ^ f.width
  magnitude_lt := Nat.mod_lt _ (Nat.two_pow_pos _)

/-- The bits of a number, the sign above the others. -/
def toBits (b : Binary f) : Nat :=
  (if b.negative then 2 ^ f.width else 0) + b.magnitude

/-! ## Classes of numbers -/

/-- Zero with the given sign. -/
def zero (f : Format) (negative : Bool) : Binary f :=
  ⟨negative, 0, Nat.two_pow_pos _⟩

/-- Infinity with the given sign. -/
def infinity (f : Format) (negative : Bool) : Binary f :=
  ⟨negative, f.infinity, f.infinity_lt⟩

/-- A number that is comparable with nothing. -/
def nan (f : Format) : Binary f :=
  ⟨false, f.nan, f.nan_lt⟩

/-- Neither infinite nor a NaN. -/
def isFinite (b : Binary f) : Bool := b.magnitude < f.infinity

/-- Not a number. -/
def isNaN (b : Binary f) : Bool := f.infinity < b.magnitude

/-- The number with the opposite sign. -/
def neg (b : Binary f) : Binary f := { b with negative := !b.negative }

/-! ## Values -/

/-- How far the fraction of a number is shifted against that of the least numbers. -/
def shift (b : Binary f) : Nat := b.magnitude / 2 ^ f.fractionBits - 1

/-- The fraction of a number, with its leading bit if it is normal. -/
def significand (b : Binary f) : Nat := b.magnitude - b.shift * 2 ^ f.fractionBits

/-- The absolute value of a finite number as a multiple of the least positive number,
`2 ^ (-f.scale)`. The subnormal numbers and the least normal ones are not shifted. -/
def quanta (b : Binary f) : Nat := b.significand * 2 ^ b.shift

/-- The sign and magnitude as one integer, ordered as the numbers are; the zeros coincide. -/
def key (b : Binary f) : Int :=
  if b.negative then -(b.magnitude : Int) else b.magnitude

/-- The order of two numbers; nothing where one of them is a NaN. -/
def compare? (a b : Binary f) : Option Ordering :=
  if a.isNaN || b.isNaN then none else some (compare a.key b.key)

/-- Equality as numbers: the zeros are equal and a NaN is equal to nothing. -/
def same (a b : Binary f) : Bool := compare? a b = some .eq

/-- The integer that a finite number is, if it is one. -/
def toInt? (b : Binary f) : Option Int :=
  if b.isFinite ∧ b.quanta % 2 ^ f.scale = 0 then
    let n : Int := (b.quanta / 2 ^ f.scale : Nat)
    some (if b.negative then -n else n)
  else none

theorem same_self_iff (b : Binary f) : b.same b = true ↔ b.isNaN = false := by
  by_cases h : b.isNaN = true <;> simp [same, compare?, h]

end Binary

/-- The numbers of 32 bits. -/
abbrev Single := Binary .single

/-- The numbers of 64 bits. -/
abbrev Double := Binary .double

example : (Binary.ofBits .double 0x3FF8000000000000).quanta = 3 * 2 ^ 1073 := by decide +kernel

end Reshape
