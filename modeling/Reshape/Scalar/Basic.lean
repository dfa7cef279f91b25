import Reshape.Decimal.Shortest

/-!
# Scalars

The leaves of a document: a text, a truth value, null, or a number of one of four kinds. The kind
is part of the value, so the integer one and the long one are different scalars.

## Main definitions

* `Scalar`, `Scalar.Kind`, `Scalar.kind`.
* `Scalar.same`: equality of kind and value.
* `Scalar.ofInt?`: the tagging of an integer by the width that it needs.
* `Scalar.ofReal`: the tagging of a real by the width that its numeral needs.
* `Scalar.text`: the text of a scalar.
-/

namespace Reshape

/-- A leaf of a document. -/
inductive Scalar where
  | string (s : String)
  | integer (n : Int32)
  | long (n : Int64)
  | float (r : Single)
  | double (r : Double)
  | boolean (b : Bool)
  | null
deriving DecidableEq, Repr

namespace Scalar

/-- The kinds of scalars. -/
inductive Kind where
  | string
  | integer
  | long
  | float
  | double
  | boolean
  | null
deriving DecidableEq, Repr

/-- The name of a kind. -/
def Kind.name : Kind → String
  | string => "string"
  | integer => "integer"
  | long => "long"
  | float => "float"
  | double => "double"
  | boolean => "boolean"
  | null => "null"

/-- The kind of a scalar. -/
def kind : Scalar → Kind
  | string _ => .string
  | integer _ => .integer
  | long _ => .long
  | float _ => .float
  | double _ => .double
  | boolean _ => .boolean
  | null => .null

/-- Whether a scalar is a number. -/
def isNumeric (s : Scalar) : Bool :=
  match s.kind with
  | .integer | .long | .float | .double => true
  | _ => false

/-! ## Equality -/

/-- Equality of kind and value. Reals are compared as numbers, so the zeros are equal and a NaN
is equal to nothing. -/
def same : Scalar → Scalar → Bool
  | string a, string b => a == b
  | integer a, integer b => a == b
  | long a, long b => a == b
  | float a, float b => a.same b
  | double a, double b => a.same b
  | boolean a, boolean b => a == b
  | null, null => true
  | _, _ => false

/-! ## Parts -/

/-- The content of a text. -/
def string? : Scalar → Option String
  | string s => some s
  | _ => none

/-- The content of a truth value. -/
def boolean? : Scalar → Option Bool
  | boolean b => some b
  | _ => none

/-- The double nearest to a number. -/
def number? : Scalar → Option Double
  | integer n => some (.ofInt .double n.toInt)
  | long n => some (.ofInt .double n.toInt)
  | float r => some (r.cast .double)
  | double r => some r
  | _ => none

/-! ## Tagging -/

/-- An integer as an integer of 32 bits, if it is in range. -/
def toInteger? (n : Int) : Option Scalar :=
  if Int32.minValue.toInt ≤ n ∧ n ≤ Int32.maxValue.toInt then some (integer (Int32.ofInt n))
  else none

/-- An integer as an integer of 64 bits, if it is in range. -/
def toLong? (n : Int) : Option Scalar :=
  if Int64.minValue.toInt ≤ n ∧ n ≤ Int64.maxValue.toInt then some (long (Int64.ofInt n))
  else none

/-- An integer as the narrowest kind that holds it. -/
def ofInt? (n : Int) : Option Scalar :=
  (toInteger? n).or (toLong? n)

/-- The integer that a text of digits with an optional sign denotes. -/
def readInt? (cs : List Char) : Option Scalar :=
  (Decimal.readInt? cs).bind ofInt?

/-- A real as a float when the float's numeral denotes the same double, and as a double
otherwise. -/
def ofReal (r : Double) : Scalar :=
  let narrow := r.cast .single
  if narrow.isFinite ∧ (Binary.ofDecimal .double narrow.shortest).same r then float narrow
  else double r

/-! ## Text -/

/-- The text of a real; numbers without a numeral are written as null. -/
def realText {f : Format} (r : Binary f) : List Char :=
  if r.isFinite then r.numeral else "null".toList

/-- The text of an integer. -/
def intText (n : Int) : List Char :=
  if n < 0 then '-' :: Decimal.digits n.natAbs else Decimal.digits n.natAbs

/-- The text of a truth value. -/
def booleanText (b : Bool) : List Char :=
  if b then "true".toList else "false".toList

/-- The text of a scalar; a string is its own text. -/
def text : Scalar → List Char
  | string s => s.toList
  | integer n => intText n.toInt
  | long n => intText n.toInt
  | float r => realText r
  | double r => realText r
  | boolean b => booleanText b
  | null => "null".toList

/-- The text of a scalar as a string. -/
def toText (s : Scalar) : String := .ofList s.text

end Scalar

end Reshape
