import Reshape.Path.Compile
import Reshape.Document.Navigate

/-!
# Patterns

The address of a node is the row of its keys, and a pattern describes addresses: by their beginning
if it is written with a slash in front, and by their end otherwise.

## Main definitions

* `Document.address`: the address of a node.
* `Pattern`, `Pattern.compile`: patterns and their text.
* `Pattern.holds`: whether a pattern describes an address.
-/

namespace Reshape

/-- The address of a node: its path, or one empty segment for a node that has no key. -/
def Document.address (d : Document) (id : NodeId) : List String :=
  match d.path id with
  | [] => [""]
  | keys => keys

/-- The wording of an address. -/
def displayAddress (address : List String) : String := "/" ++ "/".intercalate address

/-- A description of addresses. -/
structure Pattern where
  text : String
  absolute : Bool
  segments : List String
deriving DecidableEq, Repr

namespace Pattern

/-- The pattern of a path text: the texts of its segments. -/
def compile (strict : Bool) (text : String) : Except Path.MalformedStep Pattern :=
  (Path.compileWith strict text).map fun p => ⟨text, p.absolute, p.segments⟩

/-- Whether the segment of a pattern describes a key: a star describes all of them. -/
def describes (segment key : String) : Bool := segment = "*" || segment = key

/-- Whether a row of segments describes the beginning of a row of keys. -/
def describesPrefix : List String → List String → Bool
  | [], _ => true
  | _ :: _, [] => false
  | s :: segments, k :: keys => describes s k && describesPrefix segments keys

/-- Whether a pattern describes an address. -/
def holds (p : Pattern) (address : List String) : Bool :=
  if p.absolute then describesPrefix p.segments address
  else describesPrefix p.segments.reverse address.reverse

end Pattern

end Reshape
