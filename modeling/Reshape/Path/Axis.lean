import Reshape.Document.Navigate

/-!
# Axes

The directions in which a step of a path looks from a node, and the nodes that lie there.

## Main definitions

* `Axis`, `Axis.ofName`, `Axis.name`.
* `Document.descendants`: everything below a node, found with a stack of nodes yet to visit.
* `Document.axis`: the nodes on an axis, in the order of the axis.
-/

namespace Reshape

/-- A direction from a node. -/
inductive Axis where
  | self
  | child
  | parent
  | ancestor
  | ancestorOrSelf
  | descendant
  | descendantOrSelf
  | precedingSibling
  | followingSibling
  /-- A name that is no axis; nothing lies there. -/
  | unknown (name : String)
deriving DecidableEq, Repr

namespace Axis

/-- The axis of a name. No name at all means the node itself. -/
def ofName (name : String) : Axis :=
  match name with
  | "" => self
  | "self" => self
  | "child" => child
  | "parent" => parent
  | "ancestor" => ancestor
  | "ancestor-or-self" => ancestorOrSelf
  | "descendant" => descendant
  | "descendant-or-self" => descendantOrSelf
  | "preceding-sibling" => precedingSibling
  | "following-sibling" => followingSibling
  | other => unknown other

/-- The name of an axis. -/
def name : Axis → String
  | self => "self"
  | child => "child"
  | parent => "parent"
  | ancestor => "ancestor"
  | ancestorOrSelf => "ancestor-or-self"
  | descendant => "descendant"
  | descendantOrSelf => "descendant-or-self"
  | precedingSibling => "preceding-sibling"
  | followingSibling => "following-sibling"
  | unknown name => name

end Axis

namespace Document

/-- The nodes on a stack and below it, in order; every visit takes a node off the stack and puts
its children on it, so that at most `fuel` nodes are visited. -/
def visitStack (d : Document) : Nat → List NodeId → List NodeId
  | 0, _ => []
  | _ + 1, [] => []
  | fuel + 1, id :: stack => id :: d.visitStack fuel (d.children id ++ stack)

/-- Everything below a node, each container before its children. -/
def descendants (d : Document) (id : NodeId) : List NodeId :=
  d.visitStack d.nodes.size (d.children id)

/-- The children of the container of a node, the node itself included. -/
def siblings (d : Document) (id : NodeId) : List NodeId :=
  match d.parent id with
  | some p => d.children p
  | none => []

/-- The nodes on an axis, in the order of the axis: ancestors from the nearest on, everything else
in document order. -/
def axis (d : Document) (id : NodeId) : Axis → List NodeId
  | .self => [id]
  | .child => d.children id
  | .parent => (d.parent id).toList
  | .ancestor => d.ancestors id
  | .ancestorOrSelf => id :: d.ancestors id
  | .descendant => d.descendants id
  | .descendantOrSelf => id :: d.descendants id
  | .precedingSibling => (d.siblings id).takeWhile (· ≠ id)
  | .followingSibling => ((d.siblings id).dropWhile (· ≠ id)).drop 1
  | .unknown _ => []

end Document

end Reshape
