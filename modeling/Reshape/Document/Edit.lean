import Reshape.Document.Navigate

/-!
# Editing a document

Members and elements are attached to and detached from their containers. A node can be attached
only where it has no place yet and where no circle would arise; an edit that is refused changes
nothing.

## Main definitions

* `Document.EditError`: why an edit is refused.
* `Document.linkMember`, `Document.linkElement`, `Document.detach`: the changes themselves.
* `Document.insertField`, `Document.removeField`, `Document.pushElement`,
  `Document.insertElement`, `Document.removeElement`, `Document.setValue`, `Document.setRoot`: the
  changes behind their conditions.
-/

namespace Reshape.Document

/-- Why an edit is refused. -/
inductive EditError where
  | notAnObject (id : NodeId)
  | notAnArray (id : NodeId)
  | notAValue (id : NodeId)
  | outOfBounds (index length : Nat)
  | alreadyAttached (id : NodeId)
  | wouldCycle (id : NodeId)
deriving DecidableEq, Repr

/-- How messages name a node. -/
def nodeLabel (id : NodeId) : String := "NodeId(" ++ toString id ++ ")"

/-- The wording of a refusal. -/
def EditError.message : EditError → String
  | notAnObject id => "Node " ++ nodeLabel id ++ " is not an object"
  | notAnArray id => "Node " ++ nodeLabel id ++ " is not an array"
  | notAValue id => "Node " ++ nodeLabel id ++ " is not a value"
  | outOfBounds i n =>
    "Index " ++ toString i ++ " is out of bounds for an array of length " ++ toString n
  | alreadyAttached id => "Node " ++ nodeLabel id ++ " is already attached to a parent"
  | wouldCycle id => "Attaching node " ++ nodeLabel id ++ " would create a cycle"

/-! ## Changes -/

/-- A node loses its place. -/
def detach (d : Document) (id : NodeId) : Document := d.setPlace id none none

/-- `child` becomes the member `name` of the object, which lists the members `ms` so far. A member
that had the name is detached. -/
def linkMember (d : Document) (object : NodeId) (ms : Members NodeId) (name : String)
    (child : NodeId) : Document :=
  let replaced :=
    match ms.find? name with
    | some old => (d.setContent object (.object (ms.put name child))).detach old
    | none => d.setContent object (.object (ms.put name child))
  replaced.setPlace child (some object) (some name)

/-- `child` becomes the element at position `i` of the array, which lists `items` so far. An
element has no name, and neither has a node without a place, so that the name stays as it is. -/
def linkElement (d : Document) (array : NodeId) (items : List NodeId) (i : Nat) (child : NodeId) :
    Document :=
  (d.setContent array (.array (items.insertIdx i child))).setParent child (some array)

/-! ## Conditions -/

/-- Whether `child` can be placed below `parent`: it has no place, is not the root, and is not
around the new place. -/
def attachable (d : Document) (parent child : NodeId) : Except EditError Unit :=
  if (d.parent child).isSome ∨ child = d.root then .error (.alreadyAttached child)
  else if child = parent ∨ child ∈ d.ancestors parent then .error (.wouldCycle child)
  else .ok ()

/-! ## Edits -/

/-- `child` becomes the member `name` of an object, at the place of the member that had the name
or at the end. The replaced member is returned. -/
def insertField (d : Document) (object : NodeId) (name : String) (child : NodeId) :
    Except EditError (Document × Option NodeId) :=
  match d.content object with
  | .object ms => do
    d.attachable object child
    return (d.linkMember object ms name child, Members.find? ms name)
  | _ => .error (.notAnObject object)

/-- The member `name` of an object is detached. -/
def removeField (d : Document) (object : NodeId) (name : String) :
    Except EditError (Document × Option NodeId) :=
  match d.content object with
  | .object ms =>
    match Members.find? ms name with
    | some old =>
      .ok ((d.setContent object (.object (Members.erase ms name))).detach old, some old)
    | none => .ok (d, none)
  | _ => .error (.notAnObject object)

/-- `child` becomes the element at position `i` of an array, in front of the one that is there. -/
def insertElement (d : Document) (array : NodeId) (i : Nat) (child : NodeId) :
    Except EditError Document :=
  match d.content array with
  | .array items =>
    if items.length < i then .error (.outOfBounds i items.length)
    else do
      d.attachable array child
      return d.linkElement array items i child
  | _ => .error (.notAnArray array)

/-- `child` becomes the last element of an array. -/
def pushElement (d : Document) (array child : NodeId) : Except EditError Document :=
  match d.content array with
  | .array items => d.insertElement array items.length child
  | _ => .error (.notAnArray array)

/-- The element at position `i` of an array is detached. -/
def removeElement (d : Document) (array : NodeId) (i : Nat) :
    Except EditError (Document × NodeId) :=
  match d.content array with
  | .array items =>
    match items[i]? with
    | some old => .ok ((d.setContent array (.array (items.eraseIdx i))).setParent old none, old)
    | none => .error (.outOfBounds i items.length)
  | _ => .error (.notAnArray array)

/-- A value node gets another scalar. -/
def setValue (d : Document) (id : NodeId) (s : Scalar) : Except EditError Document :=
  match d.content id with
  | .value _ => .ok (d.setContent id (.value s))
  | _ => .error (.notAValue id)

/-- A node without a place becomes the root. -/
def setRoot (d : Document) (id : NodeId) : Except EditError Document :=
  if id ≠ d.root ∧ (d.parent id).isSome then .error (.alreadyAttached id)
  else .ok { d with root := id }

end Reshape.Document
