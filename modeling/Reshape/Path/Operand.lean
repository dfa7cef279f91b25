import Reshape.Path.Compile
import Reshape.Text.DecimalDigit

/-!
# Operands

The text of an operand is a variable, a literal or a path. A text in quotes stands for itself, an
integer for the narrowest integer that holds it, another number for a float; whatever is neither of
these is a path, numbers that do not fit included.

## Main definitions

* `isInteger`, `isNumber`: the texts that look like numbers, with digits of any script.
* `Operand`, `Operand.ofText`.
* `readIndex?`: the position that a text denotes.
-/

namespace Reshape

/-- A text without a sign in front. -/
def dropSign : List Char → List Char
  | '+' :: rest => rest
  | '-' :: rest => rest
  | cs => cs

/-- A row of at least one digit, of any script. -/
def isDigits (cs : List Char) : Bool := !cs.isEmpty && cs.all Text.isDecimalDigit

/-- An optional sign and digits. -/
def isInteger (cs : List Char) : Bool := isDigits (dropSign cs)

/-- The power of ten at the end of a number, or nothing. -/
def isPower : List Char → Bool
  | [] => true
  | c :: rest => (c = 'e' || c = 'E') && isInteger rest

/-- An optional sign, digits with at most one point in front of the last of them, and optionally a
power of ten. -/
def isNumber (cs : List Char) : Bool :=
  let unsigned := dropSign cs
  let whole := unsigned.takeWhile Text.isDecimalDigit
  match unsigned.dropWhile Text.isDecimalDigit with
  | '.' :: rest =>
    !(rest.takeWhile Text.isDecimalDigit).isEmpty && isPower (rest.dropWhile Text.isDecimalDigit)
  | rest => !whole.isEmpty && isPower rest

/-- The position that a text denotes: ASCII digits, with a plus in front or not. -/
def readIndex? (cs : List Char) : Option Nat :=
  let ds :=
    match cs with
    | '+' :: rest => rest
    | _ => cs
  if ds ≠ [] ∧ ds.all Char.isDigit then some (Decimal.ofDigits ds) else none

/-- What an operand denotes. -/
inductive Operand where
  | binding (name : String)
  | literal (s : Scalar)
  | path (p : Path)
deriving DecidableEq, Repr

namespace Operand

/-- The literal that a text is, if it is one. -/
def readLiteral? (cs : List Char) : Option Scalar :=
  match cs with
  | '"' :: rest =>
    if rest.getLast? = some '"' then some (.string (.ofList rest.dropLast)) else none
  | _ =>
    if isInteger cs then Scalar.readInt? cs
    else if isNumber cs then (Decimal.read? cs).map fun d => .float (.ofDecimal .single d)
    else none

/-- The operand that a text denotes. -/
def ofText (text : String) : Operand :=
  match text.toList with
  | '$' :: name => binding (.ofList name)
  | cs =>
    match readLiteral? cs with
    | some s => literal s
    | none => path (Path.compileChars cs)

end Operand

end Reshape
