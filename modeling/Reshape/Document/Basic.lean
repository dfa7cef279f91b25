import Reshape.Tree.Basic

/-!
# Documents

A document is an arena of numbered nodes. A container lists its children, and every node records
its parent and, below an object, its name, so that one can walk up as well as down. Nodes are never
renumbered: what is removed stays in the arena, detached.

## Main definitions

* `Document`, `Document.Record`, `Document.Content`: the arena and its nodes.
* `Document.tree`: the ordered tree below a node.
* `Document.alloc`, `Document.new`: a new node, and a document of one node.
-/

namespace Reshape

/-- The number of a node in the arena of its document. -/
abbrev NodeId := Nat

namespace Document

/-- What a node holds: a scalar, or the numbers of its children. -/
inductive Content where
  | value (s : Scalar)
  | array (items : List NodeId)
  | object (members : List (String × NodeId))
deriving DecidableEq, Repr

/-- The kinds of nodes. -/
inductive Shape where
  | value
  | array
  | object
deriving DecidableEq, Repr

/-- The kind of node that a content makes. -/
def Content.shape : Content → Shape
  | value _ => .value
  | array _ => .array
  | object _ => .object

/-- The children that a content lists. -/
def Content.children : Content → List NodeId
  | value _ => []
  | array items => items
  | object ms => ms.map Prod.snd

/-- A node of the arena. -/
structure Record where
  /-- The container that lists the node. -/
  parent : Option NodeId
  /-- The name of the node in its container, if that is an object. -/
  name : Option String
  content : Content
deriving DecidableEq, Repr

end Document

/-- An arena of nodes, one of which is the root. -/
structure Document where
  nodes : Array Document.Record
  root : NodeId
deriving DecidableEq, Repr

namespace Document

/-! ## Reading records -/

/-- The record of a node. A number that is not in use reads as a detached null. -/
def record (d : Document) (id : NodeId) : Record :=
  d.nodes.getD id ⟨none, none, .value .null⟩

/-- The container of a node. -/
def parent (d : Document) (id : NodeId) : Option NodeId := (d.record id).parent

/-- The name of a member of an object. -/
def name (d : Document) (id : NodeId) : Option String := (d.record id).name

/-- What a node holds. -/
def content (d : Document) (id : NodeId) : Content := (d.record id).content

/-- The children of a node in order. -/
def children (d : Document) (id : NodeId) : List NodeId := (d.content id).children

/-- The kind of a node. -/
def shape (d : Document) (id : NodeId) : Shape := (d.content id).shape

/-- The scalar of a value node. -/
def scalar? (d : Document) (id : NodeId) : Option Scalar :=
  match d.content id with
  | .value s => some s
  | _ => none

/-! ## New nodes -/

/-- The arena without any node. -/
def empty : Document := ⟨#[], 0⟩

/-- The document with one more node, which has no parent, and the number of that node. -/
def alloc (d : Document) (c : Content) : Document × NodeId :=
  (⟨d.nodes.push ⟨none, none, c⟩, d.root⟩, d.nodes.size)

/-- The document whose only node is the root. -/
def new (c : Content) : Document := ⟨#[⟨none, none, c⟩], 0⟩

/-! ## Changing records -/

/-- The document with one record changed. -/
def modify (d : Document) (id : NodeId) (f : Record → Record) : Document :=
  { d with nodes := d.nodes.modify id f }

/-- The document with what a node holds replaced. -/
def setContent (d : Document) (id : NodeId) (c : Content) : Document :=
  d.modify id fun r => { r with content := c }

/-- The document with a node that records a container and a name. -/
def setPlace (d : Document) (id : NodeId) (parent : Option NodeId) (name : Option String) :
    Document :=
  d.modify id fun r => { r with parent, name }

/-- The document with a node that records another container and keeps its name. -/
def setParent (d : Document) (id : NodeId) (parent : Option NodeId) : Document :=
  d.modify id fun r => { r with parent }

/-- The document with a node that records another name and keeps its container. -/
def setName (d : Document) (id : NodeId) (name : Option String) : Document :=
  d.modify id fun r => { r with name }

/-! ## The tree below a node -/

/-- The tree below a node, followed down `fuel` levels. -/
def treeWithin (d : Document) : Nat → NodeId → Tree Scalar
  | 0, _ => .leaf .null
  | fuel + 1, id =>
    match d.content id with
    | .value s => .leaf s
    | .array items => .array (items.map (d.treeWithin fuel))
    | .object ms => .object (ms.map fun m => (m.1, d.treeWithin fuel m.2))

/-- The ordered tree below a node. No branch of it is longer than the arena. -/
def tree (d : Document) (id : NodeId) : Tree Scalar := d.treeWithin d.nodes.size id

/-- The ordered tree that a document stands for. -/
def toTree (d : Document) : Tree Scalar := d.tree d.root

@[simp] theorem size_modify (d : Document) (id : NodeId) (f : Record → Record) :
    (d.modify id f).nodes.size = d.nodes.size := by
  simp [modify]

theorem record_modify (d : Document) (id other : NodeId) (f : Record → Record)
    (h : id < d.nodes.size) :
    (d.modify id f).record other = if other = id then f (d.record id) else d.record other := by
  by_cases ho : other = id
  · subst ho
    simp [record, modify, h, Array.getElem_modify]
  · have : id ≠ other := fun e => ho e.symm
    simp [record, modify, ho, Array.getElem?_modify, this]

theorem record_alloc (d : Document) (c : Content) (id : NodeId) (h : id < d.nodes.size) :
    (d.alloc c).1.record id = d.record id := by
  simp [record, alloc, Array.getElem?_push, Nat.ne_of_lt h]

theorem record_alloc_new (d : Document) (c : Content) :
    (d.alloc c).1.record (d.alloc c).2 = ⟨none, none, c⟩ := by
  simp [record, alloc]

example : (new (.value .null)).toTree.rows = [⟨0, .top, .leaf .null⟩] := by decide

end Document

end Reshape
