import Reshape.Path.Axis
import Reshape.Path.Operator

/-!
# Paths

A path is a row of steps. Each step looks along an axis, takes the nodes that its segment describes
and keeps those that satisfy its predicate. The operands of a predicate stay as text, which is read
when the predicate is asked.

## Main definitions

* `Segment`, `Predicate`, `Step`, `Path`.
* `Path.display`: the text of a path.
-/

namespace Reshape

/-- What a step takes. -/
inductive Segment where
  /-- The nodes on the axis, written as one point. -/
  | current
  /-- The parent, written as two points. -/
  | parent
  /-- All children, written as a star. -/
  | wildcard
  /-- Everything below, written as nothing between two slashes. -/
  | descend
  /-- A member, or a child at a position. -/
  | name (s : String)
  /-- Nothing: the segment of a step that is not well formed. -/
  | inert
deriving DecidableEq, Repr

namespace Segment

/-- The segment that a text describes. -/
def ofText (text : String) : Segment :=
  match text with
  | "." => current
  | ".." => parent
  | "*" => wildcard
  | "" => descend
  | other => .name other

/-- The text of a segment. -/
def text : Segment → String
  | current => "."
  | parent => ".."
  | wildcard => "*"
  | descend => ""
  | name s => s
  | inert => ""

end Segment

/-- A condition on a node. -/
structure Predicate where
  negated : Bool
  left : String
  operator : Operator
  right : String
deriving DecidableEq, Repr

/-- A step of a path. -/
structure Step where
  axis : Axis
  segment : Segment
  predicate : Option Predicate
deriving DecidableEq, Repr

/-- A step that selects nothing. -/
def Step.inert : Step := ⟨.self, .inert, none⟩

/-- A row of steps, taken from the topmost ancestor or from the node itself. -/
structure Path where
  absolute : Bool
  steps : List Step
deriving DecidableEq, Repr

/-! ## Text -/

/-- The condition inside the brackets: words stand between spaces, signs do not. -/
def Predicate.body (p : Predicate) : List Char :=
  match p.operator with
  | .keyword _ => p.left.toList ++ ' ' :: (p.operator.chars ++ ' ' :: p.right.toList)
  | .symbol _ => p.left.toList ++ p.operator.chars ++ p.right.toList

/-- The text of a predicate, with its brackets. -/
def Predicate.chars (p : Predicate) : List Char :=
  if p.negated then "[not(".toList ++ p.body ++ [')', ']']
  else '[' :: (p.body ++ [']'])

/-- The text of a step. -/
def Step.chars (s : Step) : List Char :=
  (if s.axis = .self then [] else s.axis.name.toList ++ [':', ':']) ++ s.segment.text.toList ++
    (match s.predicate with
      | some p => p.chars
      | none => [])

/-- The text of a path: its steps between slashes. -/
def Path.chars (p : Path) : List Char :=
  (if p.absolute then ['/'] else []) ++ ['/'].intercalate (p.steps.map Step.chars)

/-- The text of a predicate, with its brackets. -/
def Predicate.display (p : Predicate) : String := .ofList p.chars

/-- The text of a step. -/
def Step.display (s : Step) : String := .ofList s.chars

/-- The text of a path. -/
def Path.display (p : Path) : String := .ofList p.chars

/-- The texts of the segments of a path. -/
def Path.segments (p : Path) : List String := p.steps.map (·.segment.text)

end Reshape
