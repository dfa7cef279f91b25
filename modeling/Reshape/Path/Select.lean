import Reshape.Path.Compare
import Reshape.Path.Operand
import Reshape.Document.Build

/-!
# Selection

Following a path through a document. The nodes come in the order in which they are reached, and a
node that is reached twice comes twice.

Operands that were read from a text contain no closing bracket, so the paths among them have no
predicates. Operands that were put together otherwise may be paths with predicates, but those were
read from a text. Predicates are therefore asked on two levels, and a path is followed by recursion
on its steps.

## Main definitions

* `Document.namedChild?`: the child that a name or position denotes.
* `Document.walk`: the nodes at the end of a row of steps, for a given test of predicates.
* `Document.satisfiesBy`, `Document.satisfies`: whether a node satisfies a predicate.
* `Document.select`: the nodes that a path selects.
* `Document.selectDocument`: copies of the selected nodes, as a document.
-/

namespace Reshape.Document

/-! ## Steps -/

/-- The child that the text of a segment denotes. A text that looks like an integer is a position,
in objects too. -/
def namedChild? (d : Document) (id : NodeId) (text : String) : Option NodeId :=
  if isInteger text.toList then (readIndex? text.toList).bind (d.childAt? id)
  else d.childByName? id text

/-- The members of a name in all objects from a node downwards. -/
def searchNamed (d : Document) (id : NodeId) (name : String) : List NodeId :=
  (d.preorder id).filterMap fun n => d.childByName? n name

/-- Whether a node passes the predicate of a step, if there is one. -/
def passes (test : Predicate → NodeId → Bool) (p : Option Predicate) (id : NodeId) : Bool :=
  match p with
  | some p => test p id
  | none => true

/-- The nodes that a step takes before its predicate is asked. A descent that is the last step
takes the node itself. -/
def candidates (d : Document) (s : Step) (id : NodeId) : List NodeId :=
  match s.segment with
  | .current => d.axis id s.axis
  | .parent => (d.parent id).toList
  | .wildcard => d.children id
  | .descend => [id]
  | .name text => (d.axis id s.axis).filterMap (d.namedChild? · text)
  | .inert => []

/-- The nodes at the end of a row of steps from a node, where `test` decides the predicates. A
descent takes over the step behind it: it finds the members of that step's name at any depth, and
asks that step's predicate. -/
def walk (d : Document) (test : Predicate → NodeId → Bool) : List Step → NodeId → List NodeId
  | [], id => [id]
  | [s], id => (d.candidates s id).filter (passes test s.predicate)
  | s :: next :: rest, id =>
    if s.segment = .descend then
      if next.segment = .inert then []
      else
        ((d.searchNamed id next.segment.text).filter (passes test next.predicate)).flatMap
          (d.walk test rest)
    else
      ((d.candidates s id).filter (passes test s.predicate)).flatMap (d.walk test (next :: rest))

/-- Where a path begins when it is taken from a node. -/
def origin (d : Document) (p : Path) (id : NodeId) : NodeId :=
  if p.absolute then d.top id else id

/-! ## Predicates -/

section Predicates

variable (d : Document) (bindings : Option (Tree Scalar))

/-- The trees that an operand denotes at a node, where `test` decides the predicates in it. Variables
are the members of an object. -/
def resolve (test : Predicate → NodeId → Bool) (id : NodeId) (text : String) :
    List (Tree Scalar) :=
  match Operand.ofText text with
  | .binding name => (bindings.bind (·.member? name)).toList
  | .literal s => [.leaf s]
  | .path p => (d.walk test p.steps (d.origin p id)).map d.tree

/-- Whether a node satisfies a predicate, where `test` decides the predicates in its operands. -/
def satisfiesBy (test : Predicate → NodeId → Bool) (p : Predicate) (id : NodeId) : Bool :=
  p.operator.compare (d.resolve bindings test id p.left) (d.resolve bindings test id p.right) !=
    p.negated

/-- Whether a node satisfies a predicate. The predicates in its operands were read from a text, and
no others are in theirs. -/
def satisfies : Predicate → NodeId → Bool :=
  d.satisfiesBy bindings (d.satisfiesBy bindings fun _ _ => true)

end Predicates

/-! ## Paths -/

/-- The nodes that a path selects from a node. -/
def select (d : Document) (bindings : Option (Tree Scalar)) (p : Path) (id : NodeId) :
    List NodeId :=
  d.walk (d.satisfies bindings) p.steps (d.origin p id)

/-- Copies of nodes become the elements of the root array of `out`, one after the other. -/
def pushCopies (out : Document) : List (Tree Scalar) → Except EditError Document
  | [] => .ok out
  | t :: rest => do
    let (added, id) := out.addCopy t
    let out ← added.pushElement added.root id
    out.pushCopies rest

/-- A document with copies of the nodes that a path selects from the root, in an array. -/
def selectDocument (d : Document) (p : Path) : Except EditError Document :=
  (new (.array [])).pushCopies ((d.select none p d.root).map d.tree)

end Reshape.Document
