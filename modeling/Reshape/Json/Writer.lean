import Reshape.Json.Quoted
import Reshape.Tree.Basic

/-!
# Writing JSON text

The text of a tree of scalars, without white space or indented. Reals without a numeral are
written as null.

## Main definitions

* `Json.compact`: the text without white space.
* `Json.pretty`: the text with every child on a line of its own.
* `Tree.string`: the text of a tree where a string stands for itself.
-/

namespace Reshape

namespace Json

/-- The text of a leaf. -/
def leafText : Scalar → List Char
  | .string s => quoted s.toList
  | s => s.text

/-! ## Without white space -/

mutual

/-- The text of a tree without white space. -/
def compact : Tree Scalar → List Char
  | .leaf s => leafText s
  | .array items => '[' :: (compactItems items ++ [']'])
  | .object ms => '{' :: (compactMembers ms ++ ['}'])

/-- The elements, separated by commas. -/
def compactItems : List (Tree Scalar) → List Char
  | [] => []
  | t :: rest => compact t ++ (if rest.isEmpty then [] else [',']) ++ compactItems rest

/-- The members, separated by commas. -/
def compactMembers : List (String × Tree Scalar) → List Char
  | [] => []
  | (name, t) :: rest =>
    quoted name.toList ++ ':' :: (compact t ++ (if rest.isEmpty then [] else [',']) ++
      compactMembers rest)

end

/-! ## Indented -/

/-- The beginning of a line at a level. -/
def newLine (indent level : Nat) : List Char :=
  '\n' :: List.replicate (indent * level) ' '

mutual

/-- The text of a tree at a level, with children one level further in. Empty containers stay on
their line. -/
def prettyAt (indent level : Nat) : Tree Scalar → List Char
  | .leaf s => leafText s
  | .array [] => ['[', ']']
  | .object [] => ['{', '}']
  | .array items => '[' :: (prettyItems indent (level + 1) items ++ newLine indent level ++ [']'])
  | .object ms => '{' :: (prettyMembers indent (level + 1) ms ++ newLine indent level ++ ['}'])

/-- The elements, each on a line. -/
def prettyItems (indent level : Nat) : List (Tree Scalar) → List Char
  | [] => []
  | t :: rest =>
    newLine indent level ++ prettyAt indent level t ++ (if rest.isEmpty then [] else [',']) ++
      prettyItems indent level rest

/-- The members, each on a line. -/
def prettyMembers (indent level : Nat) : List (String × Tree Scalar) → List Char
  | [] => []
  | (name, t) :: rest =>
    newLine indent level ++ quoted name.toList ++ [':', ' '] ++ prettyAt indent level t ++
      (if rest.isEmpty then [] else [',']) ++ prettyMembers indent level rest

end

/-- The text of a tree with `indent` spaces per level. -/
def pretty (indent : Nat) (t : Tree Scalar) : List Char := prettyAt indent 0 t

end Json

namespace Tree

/-- The compact JSON text of a tree. -/
def toJson (t : Tree Scalar) : String := .ofList (Json.compact t)

/-- The indented JSON text of a tree. -/
def toPrettyJson (indent : Nat) (t : Tree Scalar) : String := .ofList (Json.pretty indent t)

/-- The text of a tree in running text: a string is its own text, everything else is JSON. -/
def string : Tree Scalar → String
  | leaf (.string s) => s
  | t => t.toJson

example :
    Json.pretty 2 (object [("a", array [leaf .null, object []])]) =
      "\x7b\n  \"a\": [\n    null,\n    \x7b\x7d\n  ]\n\x7d".toList := by decide

end Tree

end Reshape
