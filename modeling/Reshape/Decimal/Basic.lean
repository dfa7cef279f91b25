/-!
# Decimal numbers

Sign, coefficient and power of ten, exactly as a number is written: a zero keeps its sign. A
numeral is read into this form before it is rounded to any machine format, and a machine number is
written from it.

## Main definitions

* `Decimal`: the number `± coefficient * 10 ^ exponent`.
* `Decimal.read?`: the number that a numeral denotes.
* `Decimal.positional`: the numeral without an exponent.
* `Decimal.readInt?`: the integer that an optionally signed row of digits denotes.
-/

namespace Reshape

-- Powers are those of the core library, whatever algebra is in scope.
attribute [scoped instance (high)] instPowNat

/-- The number `± coefficient * 10 ^ exponent`. -/
structure Decimal where
  negative : Bool
  coefficient : Nat
  exponent : Int
deriving DecidableEq, Repr

namespace Decimal

/-! ## Rows of digits -/

/-- The value of an ASCII digit. -/
def digitValue (c : Char) : Nat := c.toNat - '0'.toNat

/-- The number that a row of ASCII digits denotes; the empty row denotes zero. -/
def ofDigits (cs : List Char) : Nat :=
  cs.foldl (fun n c => n * 10 + digitValue c) 0

/-- The shortest row of digits that denotes a number. -/
def digits (n : Nat) : List Char := Nat.toDigits 10 n

/-- The leading row of ASCII digits of a text, and what follows it. -/
def span (cs : List Char) : List Char × List Char :=
  (cs.takeWhile Char.isDigit, cs.dropWhile Char.isDigit)

/-- The row of ASCII digits behind a leading point, if there is one, and what follows it. -/
def fractionSpan : List Char → List Char × List Char
  | '.' :: rest => span rest
  | cs => ([], cs)

/-! ## Reading -/

/-- A leading sign, true for minus, and what follows it. -/
def sign : List Char → Bool × List Char
  | '-' :: rest => (true, rest)
  | '+' :: rest => (false, rest)
  | cs => (false, cs)

/-- A whole text of digits with an optional sign, as an integer. -/
def readInt? (cs : List Char) : Option Int :=
  let (negative, ds) := sign cs
  if ds ≠ [] ∧ ds.all Char.isDigit then
    some (if negative then -(ofDigits ds : Int) else ofDigits ds)
  else none

/-- The power of ten that ends a numeral: nothing at all, or a letter e and an integer. -/
def readExponent? : List Char → Option Int
  | [] => some 0
  | c :: cs => if c = 'e' ∨ c = 'E' then readInt? cs else none

/-- The number that a numeral denotes: an optional sign, digits with at most one point among or
beside them, and an optional power of ten. -/
def read? (cs : List Char) : Option Decimal := do
  let (negative, unsigned) := sign cs
  let (whole, afterWhole) := span unsigned
  let (fraction, rest) := fractionSpan afterWhole
  if whole = [] ∧ fraction = [] then
    none
  else
    let power ← readExponent? rest
    return ⟨negative, ofDigits (whole ++ fraction), power - fraction.length⟩

/-! ## Writing -/

/-- The numeral of a number in full, without an exponent and with a point: digits stand on both
sides of the point. -/
def positional (d : Decimal) : List Char :=
  let row := digits d.coefficient
  let magnitude :=
    match d.exponent with
    | .ofNat n => row ++ List.replicate n '0' ++ ['.', '0']
    | .negSucc n =>
      let padded := List.replicate (n + 2 - row.length) '0' ++ row
      padded.take (padded.length - (n + 1)) ++ '.' :: padded.drop (padded.length - (n + 1))
  if d.negative then '-' :: magnitude else magnitude

/-- The same number with the trailing zeros of its coefficient moved into the exponent. -/
def reduce (d : Decimal) : Decimal :=
  let zeros := ((digits d.coefficient).reverse.takeWhile (· = '0')).length
  if d.coefficient = 0 then ⟨d.negative, 0, 0⟩
  else ⟨d.negative, d.coefficient / 10 ^ zeros, d.exponent + zeros⟩

example : read? "-12.50e1".toList = some ⟨true, 1250, -1⟩ := by decide

example : read? ".".toList = none := by decide

example : positional ⟨true, 125, -4⟩ = "-0.0125".toList := by decide

example : positional ⟨false, 12, 2⟩ = "1200.0".toList := by decide

end Decimal

end Reshape
