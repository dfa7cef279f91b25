import Reshape.Document.Basic

/-!
# Walking through a document

From a node to its neighbours: up to its ancestors, down to a child by name or position, and
through everything below it. Paths are the keys from the topmost ancestor down.

## Main definitions

* `Document.ancestors`, `Document.top`: the way up.
* `Document.key`, `Document.path`: the place of a node below its topmost ancestor.
* `Document.childByName?`, `Document.childAt?`: the way down.
* `Document.preorder`: a node and everything below it.
-/

namespace Reshape.Document

/-! ## Up -/

/-- The containers around a node, the nearest first, followed up `fuel` levels. -/
def ancestorsWithin (d : Document) : Nat → NodeId → List NodeId
  | 0, _ => []
  | fuel + 1, id =>
    match d.parent id with
    | none => []
    | some p => p :: d.ancestorsWithin fuel p

/-- The containers around a node, the nearest first. There are fewer than nodes in the arena. -/
def ancestors (d : Document) (id : NodeId) : List NodeId :=
  d.ancestorsWithin d.nodes.size id

/-- The topmost ancestor of a node, which is the node itself if it has no parent. -/
def top (d : Document) (id : NodeId) : NodeId :=
  (d.ancestors id).getLastD id

/-! ## Places -/

/-- The position of a node in the array that holds it. -/
def index? (d : Document) (id : NodeId) : Option Nat :=
  match d.parent id with
  | none => none
  | some p =>
    match d.content p with
    | .array items => items.idxOf? id
    | _ => none

/-- The decimal text of a position. -/
def indexText (i : Nat) : String := .ofList (Decimal.digits i)

/-- The key of a node in its container: the name of a member, or the position of an element. -/
def key (d : Document) (id : NodeId) : Option String :=
  (d.name id).or ((d.index? id).map indexText)

/-- The keys from the topmost ancestor down to a node. -/
def path (d : Document) (id : NodeId) : List String :=
  ((id :: d.ancestors id).filterMap d.key).reverse

/-! ## Down -/

/-- The member of an object. -/
def childByName? (d : Document) (id : NodeId) (name : String) : Option NodeId :=
  match d.content id with
  | .object ms => Members.find? ms name
  | _ => none

/-- The child at a position; members are counted in the order of insertion. -/
def childAt? (d : Document) (id : NodeId) (i : Nat) : Option NodeId :=
  (d.children id)[i]?

/-- The node at the end of a row of positions. -/
def descend? (d : Document) (id : NodeId) : List Nat → Option NodeId
  | [] => some id
  | i :: rest =>
    match d.childAt? id i with
    | some c => d.descend? c rest
    | none => none

/-- The elements of a list, taken alternately from its front and its back. -/
def alternately {α : Type} (xs : List α) : List α :=
  let half := (xs.length + 1) / 2
  interleave (xs.take half) (xs.drop half).reverse
where
  /-- Elements of two lists in turn. -/
  interleave : List α → List α → List α
    | [], ys => ys
    | x :: xs, [] => x :: xs
    | x :: xs, y :: ys => x :: y :: interleave xs ys

/-- A node and everything below it, each container before its children, followed down `fuel`
levels. -/
def preorderWithin (d : Document) : Nat → NodeId → List NodeId
  | 0, _ => []
  | fuel + 1, id => id :: (d.children id).flatMap (d.preorderWithin fuel)

/-- A node and everything below it, each container before its children. -/
def preorder (d : Document) (id : NodeId) : List NodeId :=
  d.preorderWithin d.nodes.size id

end Reshape.Document
