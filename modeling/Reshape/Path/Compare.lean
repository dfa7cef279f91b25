import Reshape.Path.Operator
import Reshape.Tree.Basic

/-!
# Comparison

What the operators mean. Words compare exactly one scalar with exactly one scalar: equality by kind
and value, order among texts or among numbers of any kinds. Signs compare selections: equality
holds if some pair is equal, inequality if some pair is not; the signs of order never hold.

## Main definitions

* `Scalar.order?`: the order of two scalars, where there is one.
* `Relation.holds`: a relation between two scalars.
* `Operator.compare`: an operator between two selections.
-/

namespace Reshape

/-- The order of two scalars: texts by code points, numbers by value as doubles. Other pairs have
no order, nor has a NaN. -/
def Scalar.order? (a b : Scalar) : Option Ordering :=
  match a, b with
  | .string s, .string t => some (compare s t)
  | _, _ =>
    match a.number?, b.number? with
    | some x, some y => Binary.compare? x y
    | _, _ => none

/-- Whether a relation holds between two scalars. -/
def Relation.holds (r : Relation) (a b : Scalar) : Bool :=
  match r with
  | .equal => a.same b
  | .notEqual => !a.same b
  | .less => a.order? b = some .lt
  | .lessOrEqual => a.order? b = some .lt || a.order? b = some .eq
  | .greater => a.order? b = some .gt
  | .greaterOrEqual => a.order? b = some .gt || a.order? b = some .eq

/-- Whether some pair out of two lists satisfies a test. -/
def anyPair {α : Type} (test : α → α → Bool) (xs ys : List α) : Bool :=
  xs.any fun x => ys.any fun y => test x y

/-- Whether an operator holds between two selections. -/
def Operator.compare (op : Operator) (left right : List (Tree Scalar)) : Bool :=
  match op, left, right with
  | .keyword r, [.leaf a], [.leaf b] => r.holds a b
  | .keyword _, _, _ => false
  | .symbol .equal, _, _ => anyPair Tree.same left right
  | .symbol .notEqual, _, _ => anyPair (fun x y => !x.same y) left right
  | .symbol _, _, _ => false

end Reshape
