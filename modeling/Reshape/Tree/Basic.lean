import Reshape.Scalar.Basic
import Reshape.Tree.Members

/-!
# Ordered trees

Trees of arrays and objects over any kind of leaf. Members keep their order; names are repeated
only in trees that were just read from a text.

## Main definitions

* `Tree`: arrays and objects over leaves.
* `Tree.map`: a change of the leaves.
* `Tree.distinct`: the tree in which repeated names are resolved.
* `Tree.same`: equality of trees, in which the order of members does not matter.
* `Tree.rows`: the nodes of a tree in order, as a table.
-/

namespace Reshape

/-- Arrays and objects over leaves of type `α`. -/
inductive Tree (α : Type) where
  | leaf (a : α)
  | array (items : List (Tree α))
  | object (members : List (String × Tree α))

namespace Tree

variable {α β : Type}

instance [Inhabited α] : Inhabited (Tree α) := ⟨leaf default⟩

/-! ## Parts -/

/-- The leaf that a tree is, if it is one. -/
def leaf? : Tree α → Option α
  | leaf a => some a
  | _ => none

/-- The member of an object. -/
def member? : Tree α → String → Option (Tree α)
  | object ms, name => Members.find? ms name
  | _, _ => none

/-- The number of elements or members. -/
def count : Tree α → Nat
  | leaf _ => 0
  | array items => items.length
  | object ms => ms.length

/-! ## Change of leaves -/

mutual

/-- The tree with `f` applied to every leaf. -/
def map (f : α → β) : Tree α → Tree β
  | leaf a => leaf (f a)
  | array items => array (mapItems f items)
  | object ms => object (mapMembers f ms)

/-- The elements with `f` applied to every leaf. -/
def mapItems (f : α → β) : List (Tree α) → List (Tree β)
  | [] => []
  | t :: rest => map f t :: mapItems f rest

/-- The members with `f` applied to every leaf. -/
def mapMembers (f : α → β) : List (String × Tree α) → List (String × Tree β)
  | [] => []
  | (name, t) :: rest => (name, map f t) :: mapMembers f rest

end

/-! ## Repeated names -/

mutual

/-- The tree in which each name of an object counts once: the last value at the place of the
first. -/
def distinct : Tree α → Tree α
  | leaf a => leaf a
  | array items => array (distinctItems items)
  | object ms => object (Members.ofList (distinctMembers ms))

/-- The elements without repeated names below them. -/
def distinctItems : List (Tree α) → List (Tree α)
  | [] => []
  | t :: rest => distinct t :: distinctItems rest

/-- The members without repeated names below them. -/
def distinctMembers : List (String × Tree α) → List (String × Tree α)
  | [] => []
  | (name, t) :: rest => (name, distinct t) :: distinctMembers rest

end

/-! ## Size and depth -/

mutual

/-- The number of nodes of a tree. -/
def size : Tree α → Nat
  | leaf _ => 1
  | array items => sizeItems items + 1
  | object ms => sizeMembers ms + 1

/-- The number of nodes of the elements. -/
def sizeItems : List (Tree α) → Nat
  | [] => 0
  | t :: rest => size t + sizeItems rest

/-- The number of nodes of the members. -/
def sizeMembers : List (String × Tree α) → Nat
  | [] => 0
  | (_, t) :: rest => size t + sizeMembers rest

end

/-! ## Equality -/

mutual

/-- Equality of trees over scalars: leaves have the same kind and value, arrays agree element by
element, and objects have equally many members of which each has an equal under its name. -/
def same : Tree Scalar → Tree Scalar → Bool
  | leaf a, leaf b => a.same b
  | array xs, array ys => sameItems xs ys
  | object ms, object ns => ms.length == ns.length && sameMembers ms ns
  | _, _ => false

/-- Equality of elements, one by one. -/
def sameItems : List (Tree Scalar) → List (Tree Scalar) → Bool
  | [], [] => true
  | x :: xs, y :: ys => same x y && sameItems xs ys
  | _, _ => false

/-- Whether each member has an equal of its name. -/
def sameMembers : List (String × Tree Scalar) → Members (Tree Scalar) → Bool
  | [], _ => true
  | (name, t) :: rest, ns =>
    (match Members.find? ns name with
      | some u => same t u
      | none => false) && sameMembers rest ns

end

/-! ## Tables -/

/-- The key of a node below its container. -/
inductive Key where
  | top
  | name (s : String)
  | index (i : Nat)
deriving DecidableEq, Repr

/-- What a row of the table shows: a leaf, or the number of children of a container. -/
inductive Cell (α : Type) where
  | leaf (a : α)
  | array (count : Nat)
  | object (count : Nat)
deriving DecidableEq, Repr

/-- A row of the table of nodes. -/
structure Row (α : Type) where
  depth : Nat
  key : Key
  cell : Cell α
deriving DecidableEq, Repr

mutual

/-- The nodes of a tree, each container before its children. -/
def rowsAt (depth : Nat) (key : Key) : Tree α → List (Row α)
  | leaf a => [⟨depth, key, .leaf a⟩]
  | array items => ⟨depth, key, .array items.length⟩ :: rowsItems (depth + 1) 0 items
  | object ms => ⟨depth, key, .object ms.length⟩ :: rowsMembers (depth + 1) ms

/-- The rows of the elements from position `i` on. -/
def rowsItems (depth i : Nat) : List (Tree α) → List (Row α)
  | [] => []
  | t :: rest => rowsAt depth (.index i) t ++ rowsItems depth (i + 1) rest

/-- The rows of the members. -/
def rowsMembers (depth : Nat) : List (String × Tree α) → List (Row α)
  | [] => []
  | (name, t) :: rest => rowsAt depth (.name name) t ++ rowsMembers depth rest

end

/-- The nodes of a tree as a table. -/
def rows (t : Tree α) : List (Row α) := rowsAt 0 .top t

example :
    (object [("a", leaf 1), ("a", leaf 2)]).distinct.rows =
      [⟨0, .top, .object 1⟩, ⟨1, .name "a", .leaf 2⟩] := by decide

end Tree

end Reshape
