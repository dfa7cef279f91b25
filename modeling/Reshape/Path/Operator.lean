/-!
# Comparison operators

Six relations in two styles. A keyword compares one scalar with one scalar; a symbol compares
everything on its left with everything on its right.

## Main definitions

* `Relation`, `Operator`.
* `Operator.ofToken?`, `Operator.token`: operators and their spelling.
-/

namespace Reshape

/-- What a comparison asks for. -/
inductive Relation where
  | equal
  | notEqual
  | less
  | lessOrEqual
  | greater
  | greaterOrEqual
deriving DecidableEq, Repr

/-- A relation, written as a word or as a sign. -/
inductive Operator where
  | keyword (r : Relation)
  | symbol (r : Relation)
deriving DecidableEq, Repr

namespace Relation

/-- The word of a relation, its two letters. -/
def word : Relation → Char × Char
  | equal => ('e', 'q')
  | notEqual => ('n', 'e')
  | less => ('l', 't')
  | lessOrEqual => ('l', 'e')
  | greater => ('g', 't')
  | greaterOrEqual => ('g', 'e')

/-- The sign of a relation. -/
def sign : Relation → List Char
  | equal => ['=']
  | notEqual => ['!', '=']
  | less => ['<']
  | lessOrEqual => ['<', '=']
  | greater => ['>']
  | greaterOrEqual => ['>', '=']

/-- All relations. -/
def all : List Relation := [equal, notEqual, less, lessOrEqual, greater, greaterOrEqual]

/-- The relation that two letters spell. -/
def ofWord? (a b : Char) : Option Relation := all.find? fun r => r.word = (a, b)

/-- The relation that a text spells as a sign. -/
def ofSign? (cs : List Char) : Option Relation := all.find? fun r => r.sign = cs

theorem ofWord?_word (r : Relation) : ofWord? r.word.1 r.word.2 = some r := by
  cases r <;> rfl

theorem ofSign?_sign (r : Relation) : ofSign? r.sign = some r := by
  cases r <;> rfl

end Relation

namespace Operator

/-- Whether an operator is a word. -/
def isKeyword : Operator → Bool
  | keyword _ => true
  | symbol _ => false

/-- The relation that an operator asks for. -/
def relation : Operator → Relation
  | keyword r => r
  | symbol r => r

/-- The spelling of an operator. -/
def chars : Operator → List Char
  | keyword r => [r.word.1, r.word.2]
  | symbol r => r.sign

/-- The spelling of an operator as a string. -/
def token (op : Operator) : String := .ofList op.chars

/-- The operator that a text spells; the case of ASCII letters does not matter. -/
def ofToken? (token : String) : Option Operator :=
  match token.toList.map Char.toLower with
  | [] => none
  | [a, b] => ((Relation.ofWord? a b).map keyword).or ((Relation.ofSign? [a, b]).map symbol)
  | cs => (Relation.ofSign? cs).map symbol

theorem ofToken?_token (op : Operator) : ofToken? op.token = some op := by
  cases op with
  | keyword r => cases r <;> simp [ofToken?, token, chars] <;> decide
  | symbol r => cases r <;> simp [ofToken?, token, chars] <;> decide

end Operator

end Reshape
