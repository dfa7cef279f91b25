import Reshape.Json.Reader
import Reshape.Document.Build

/-!
# Plain JSON values

Values as JSON itself knows them: one kind of number, which is an integer or a real, and no
widths. They are read by a reader of their own, which follows fewer levels, takes integers up to 64
bits with or without sign, and scales reals quickly rather than exactly.

## Main definitions

* `Json.Atom`, `Json.Value`: leaves and trees of plain JSON.
* `Json.scaleReal?`: the quick reading of a real.
* `Json.Value.read?`: the value that a text denotes.
* `Json.Atom.toScalar`, `Json.Atom.ofScalar`: between plain leaves and scalars.
* `Document.ofValue`, `Document.toValue`: between plain values and documents.
-/

namespace Reshape

namespace Json

/-- A leaf of plain JSON. -/
inductive Atom where
  | null
  | boolean (b : Bool)
  | int (n : Int)
  | real (r : Double)
  | string (s : String)
deriving DecidableEq, Repr

/-- A value of plain JSON. -/
abbrev Value := Tree Atom

/-! ## Reals, scaled by a rounded power of ten -/

/-- The greatest unsigned integer of 64 bits. -/
def maxUnsigned : Nat := UInt64.size - 1

/-- Digits appended to a number as long as it fits 64 bits, and how many were left over from the
first that did not fit. -/
def appendWhole (n dropped : Nat) : List Char → Nat × Nat
  | [] => (n, dropped)
  | c :: rest =>
    let next := n * 10 + Decimal.digitValue c
    if dropped = 0 ∧ next ≤ maxUnsigned then appendWhole next 0 rest
    else appendWhole n (dropped + 1) rest

/-- Digits appended to a number until it would not fit 64 bits, and how many were appended. -/
def appendFraction (n appended : Nat) : List Char → Nat × Nat
  | [] => (n, appended)
  | c :: rest =>
    let next := n * 10 + Decimal.digitValue c
    if next ≤ maxUnsigned then appendFraction next (appended + 1) rest
    else (n, appended)

/-- A power of ten as a double. -/
def powerOfTen (n : Nat) : Double := .ofDecimal .double ⟨false, 1, n⟩

/-- The double nearest to the product of two finite ones, without sign. -/
def product (a b : Double) : Double :=
  .round .double false (a.quanta * b.quanta) (2 ^ Format.double.scale * 2 ^ Format.double.scale)

/-- The double nearest to the quotient of two finite ones, without sign. -/
def quotient (a b : Double) : Double :=
  .round .double false a.quanta b.quanta

/-- A double times a power of ten, in steps for which the power is finite. Nothing is left of a
number of 64 bits after three divisions by the greatest of those powers. -/
def scaleBy (r : Double) : Nat → Int → Double
  | 0, _ => .zero .double false
  | steps + 1, power =>
    if power.natAbs ≤ 308 then
      if 0 ≤ power then product r (powerOfTen power.natAbs)
      else quotient r (powerOfTen power.natAbs)
    else if r.quanta = 0 then r
    else if 0 ≤ power then .infinity .double false
    else scaleBy (quotient r (powerOfTen 308)) steps (power + 308)

/-- The real that a number token denotes, if it is finite: the digits that fit 64 bits, times a
power of ten, each of the two rounded first. -/
def scaleReal? (token : List Char) : Option Double :=
  let (minus, unsigned) := scanMinus token
  let (whole, afterWhole) := Decimal.span unsigned
  let (fraction, rest) := Decimal.fractionSpan afterWhole
  let (n, dropped) := appendWhole 0 0 whole
  let (n, appended) := appendFraction n 0 fraction
  let power := (Decimal.readExponent? rest).getD 0
  let r := scaleBy (.ofInt .double n) 4 (power + dropped - appended)
  if r.isFinite then some (if minus = [] then r else r.neg) else none

/-! ## Reading -/

/-- The leaf that a number token denotes. Integers that need more than 64 bits, and minus zero, are
reals. -/
def readAtom? (token : List Char) : Option Atom :=
  match Decimal.readInt? token with
  | some n =>
    if token = ['-', '0'] then (scaleReal? token).map .real
    else if Int64.minValue.toInt ≤ n ∧ n ≤ maxUnsigned then some (.int n)
    else (scaleReal? token).map .real
  | none => (scaleReal? token).map .real

/-- Plain values nest containers up to 127 deep. -/
def valueDialect : Dialect Atom where
  limit := 127
  lenient := false
  number := readAtom?
  string := .string
  boolean := .boolean
  null := .null

/-- The value that a text denotes. -/
def Value.read? (text : String) : Option Value :=
  match read valueDialect text.toList with
  | .ok v => some v.distinct
  | .error _ => none

/-! ## Leaves and scalars -/

/-- The scalar of a plain leaf: the narrowest that holds it. -/
def Atom.toScalar : Atom → Scalar
  | null => .null
  | boolean b => .boolean b
  | int n => (Scalar.ofInt? n).getD (.ofReal (.ofInt .double n))
  | real r => .ofReal r
  | string s => .string s

/-- A finite real as a leaf; there is no leaf for the others. -/
def Atom.ofReal (r : Double) : Atom := if r.isFinite then real r else null

/-- The plain leaf of a scalar. A float becomes the double nearest to its numeral. -/
def Atom.ofScalar : Scalar → Atom
  | .string s => string s
  | .integer n => int n.toInt
  | .long n => int n.toInt
  | .float r => if r.isFinite then ofReal (.ofDecimal .double r.shortest) else null
  | .double r => ofReal r
  | .boolean b => boolean b
  | .null => null

end Json

namespace Document

/-- The document of a plain value. -/
def ofValue (v : Json.Value) : Document := ofTree (v.map Json.Atom.toScalar)

/-- The plain value of a document. -/
def toValue (d : Document) : Json.Value := d.toTree.map Json.Atom.ofScalar

end Document

end Reshape
