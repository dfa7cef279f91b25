/-!
# Locations in a text

Line and column of a position, both counted from one. A line ends at a line feed and a column is
one code point.

## Main definitions

* `Location.after`: the location just behind a text, the one of the character that would follow.
* `Location.describe`: the wording used in messages.
-/

namespace Reshape

/-- A position inside a text, both components counted from one. -/
structure Location where
  line : Nat
  column : Nat
deriving DecidableEq, Repr

namespace Location

/-- The location of the first character of a text. -/
def start : Location := ⟨1, 1⟩

/-- The location of the character after `c`. -/
def step (l : Location) (c : Char) : Location :=
  if c = '\n' then ⟨l.line + 1, 1⟩ else ⟨l.line, l.column + 1⟩

/-- The location just behind the text `before`. -/
def after (before : List Char) : Location :=
  before.foldl step start

/-- The wording of a location in messages. -/
def describe (l : Location) : String :=
  "line " ++ toString l.line ++ ", column " ++ toString l.column

@[simp] theorem after_nil : after [] = start := rfl

theorem after_append_singleton (before : List Char) (c : Char) :
    after (before ++ [c]) = (after before).step c := by
  simp [after]

example : after "ab\r\nc".toList = ⟨2, 2⟩ := by decide

end Location

end Reshape
