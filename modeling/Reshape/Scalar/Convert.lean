import Reshape.Scalar.Basic

/-!
# Conversion between kinds

A scalar converts to another kind where that kind can represent it. Numbers convert to integers
only when nothing is lost, texts convert to numbers when they are numerals, and everything converts
to its text.

## Main definitions

* `Scalar.convert`: the conversion, or the pair of kinds for which it fails.
-/

namespace Reshape.Scalar

/-- A scalar of kind `source` that kind `target` cannot represent. -/
structure NotRepresentable where
  source : Kind
  target : Kind
deriving DecidableEq, Repr

/-- The wording of a failed conversion. -/
def NotRepresentable.message (e : NotRepresentable) : String :=
  "Value of kind '" ++ e.source.name ++ "' is not representable as '" ++ e.target.name ++ "'"

/-- The integer that a scalar denotes: an integer itself, a real without a fraction, or a text of
digits. -/
def integerValue? : Scalar → Option Int
  | integer n => some n.toInt
  | long n => some n.toInt
  | float r => r.toInt?
  | double r => r.toInt?
  | string s => Decimal.readInt? s.toList
  | _ => none

/-- A number or numeral as a float. -/
def toFloat? : Scalar → Option Scalar
  | integer n => some (float (.ofInt .single n.toInt))
  | long n => some (float (.ofInt .single n.toInt))
  | float r => some (float r)
  | double r =>
    let narrow := r.cast .single
    if narrow.isFinite then some (float narrow) else none
  | string s => (Binary.readFinite? .single s.toList).map float
  | _ => none

/-- A number or numeral as a double. A float becomes the double nearest to its numeral, so that
both have the same text. -/
def toDouble? : Scalar → Option Scalar
  | integer n => some (double (.ofInt .double n.toInt))
  | long n => some (double (.ofInt .double n.toInt))
  | float r =>
    some (double (if r.isFinite then .ofDecimal .double r.shortest else r.cast .double))
  | double r => some (double r)
  | string s => (Binary.readFinite? .double s.toList).map double
  | _ => none

/-- The truth value that a text names. -/
def toBoolean? : Scalar → Option Scalar
  | string "true" => some (boolean true)
  | string "false" => some (boolean false)
  | boolean b => some (boolean b)
  | _ => none

/-- A scalar as a scalar of another kind, if that kind can represent it. -/
def convert? (s : Scalar) (target : Kind) : Option Scalar :=
  if s.kind = target then some s
  else
    match target with
    | .string => some (string s.toText)
    | .integer => s.integerValue?.bind toInteger?
    | .long => s.integerValue?.bind toLong?
    | .float => s.toFloat?
    | .double => s.toDouble?
    | .boolean => s.toBoolean?
    | .null => none

/-- A scalar as a scalar of another kind. -/
def convert (s : Scalar) (target : Kind) : Except NotRepresentable Scalar :=
  match s.convert? target with
  | some t => .ok t
  | none => .error ⟨s.kind, target⟩

theorem convert_self (s : Scalar) : s.convert s.kind = .ok s := by
  simp [convert, convert?]

end Reshape.Scalar
