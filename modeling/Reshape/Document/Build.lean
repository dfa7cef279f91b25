import Reshape.Document.Edit

/-!
# Documents from trees

Two ways to lay out a tree in an arena. When a text is read, a container is numbered before its
children, and a member that a later one of the same name replaces stays behind, detached. A copy
numbers the children before their container.

## Main definitions

* `Document.ofReading`: the document of a tree as it was read, repeated names included.
* `Document.addCopy`: a copy of a tree, as further nodes of an arena.
* `Document.ofTree`: the document of a copy.
* `Document.copyOf`: what lies below a node, as a document of its own.
-/

namespace Reshape.Document

/-! ## Containers first -/

mutual

/-- The nodes of a tree, each container before its children. -/
def addReading (d : Document) : Tree Scalar → Document × NodeId
  | .leaf s => d.alloc (.value s)
  | .array items =>
    let (d, id) := d.alloc (.array [])
    (addReadItems d id [] items, id)
  | .object ms =>
    let (d, id) := d.alloc (.object [])
    (addReadMembers d id [] ms, id)

/-- The elements of an array that lists `done` so far. -/
def addReadItems (d : Document) (array : NodeId) (done : List NodeId) :
    List (Tree Scalar) → Document
  | [] => d
  | t :: rest =>
    let (d, id) := addReading d t
    addReadItems (d.linkElement array done done.length id) array (done ++ [id]) rest

/-- The members of an object that lists `done` so far. -/
def addReadMembers (d : Document) (object : NodeId) (done : Members NodeId) :
    List (String × Tree Scalar) → Document
  | [] => d
  | (name, t) :: rest =>
    let (d, id) := addReading d t
    addReadMembers (d.linkMember object done name id) object (done.put name id) rest

end

/-- The document of a tree as it was read. -/
def ofReading (t : Tree Scalar) : Document :=
  let (d, id) := addReading empty t
  { d with root := id }

/-! ## Children first -/

/-- Nodes record a container, which may be the one that is made next. -/
def placeIn (d : Document) (container : NodeId) (ids : List NodeId) : Document :=
  ids.foldl (fun d id => d.setParent id (some container)) d

mutual

/-- A detached copy of a tree, each container after its children. -/
def addCopy (d : Document) : Tree Scalar → Document × NodeId
  | .leaf s => d.alloc (.value s)
  | .array items =>
    let (d, ids) := addCopyItems d items
    (d.placeIn d.nodes.size ids).alloc (.array ids)
  | .object ms =>
    let (d, ids) := addCopyMembers d ms
    (d.placeIn d.nodes.size (ids.map Prod.snd)).alloc (.object ids)

/-- Detached copies of elements. -/
def addCopyItems (d : Document) : List (Tree Scalar) → Document × List NodeId
  | [] => (d, [])
  | t :: rest =>
    let (d, id) := addCopy d t
    let (d, ids) := addCopyItems d rest
    (d, id :: ids)

/-- Detached copies of members, which know their names already. -/
def addCopyMembers (d : Document) : List (String × Tree Scalar) → Document × List (String × NodeId)
  | [] => (d, [])
  | (name, t) :: rest =>
    let (d, id) := addCopy d t
    let (d, ids) := addCopyMembers (d.setName id (some name)) rest
    (d, (name, id) :: ids)

end

/-- The document of a copy of a tree. -/
def ofTree (t : Tree Scalar) : Document :=
  let (d, id) := addCopy empty t
  { d with root := id }

/-- What lies below a node, as a document of its own. -/
def copyOf (d : Document) (id : NodeId) : Document := ofTree (d.tree id)

/-! ## Equality -/

/-- Equality of documents as trees. -/
def same (a b : Document) : Bool := a.toTree.same b.toTree

example :
    (ofReading (.object [("a", .leaf .null), ("a", .array [.leaf .null])])).toTree.rows =
      [⟨0, .top, .object 1⟩, ⟨1, .name "a", .array 1⟩, ⟨2, .index 0, .leaf .null⟩] := by decide

end Reshape.Document
