import Reshape.Text.Location

/-!
# Reading steps and faults

Readers take a text from the front and name positions by what is left of the text there. A fault
is a cause and such a position; only when the whole text is known does it become a location.

## Main definitions

* `Json.Cause`: the ways in which a text fails to be a document.
* `Json.Fault`: a cause and its position.
* `Json.Fault.locate`: the fault with line and column in place of a rest of the text.
* `Json.Read`, `Json.Step`: what a reading step leaves, with the proof that it took something.
-/

namespace Reshape.Json

/-- The two kinds of brackets. -/
inductive Bracket where
  | brace
  | square
deriving DecidableEq, Repr

/-- The opening bracket. -/
def Bracket.opening : Bracket → Char
  | brace => '{'
  | square => '['

/-- The closing bracket. -/
def Bracket.closing : Bracket → Char
  | brace => '}'
  | square => ']'

/-- The other kind. -/
def Bracket.other : Bracket → Bracket
  | brace => square
  | square => brace

/-- The ways in which a text fails to be a document. Positions are of type `P`. -/
inductive Cause (P : Type) where
  /-- There is no value at all. -/
  | empty
  /-- The text ends where a value should begin. -/
  | unexpectedEnd
  /-- A value is followed by something else. -/
  | trailing
  /-- No value begins with this character. -/
  | unexpected (c : Char)
  /-- A number that no scalar can hold. -/
  | outOfRange (token : List Char)
  /-- More containers inside each other than the limit. -/
  | tooDeep (limit : Nat)
  /-- The text ends inside a container. -/
  | unclosed (bracket : Bracket) (opened : P)
  /-- A container ends with the bracket of the other kind. -/
  | mismatched (bracket : Bracket)
  /-- A member does not begin with a name. -/
  | noName (c : Char)
  /-- A name is not followed by a colon. -/
  | noColon (c : Char)
  /-- A child is followed neither by a comma nor by the closing bracket. -/
  | noSeparator (bracket : Bracket) (c : Char)
  /-- The text ends inside a string. -/
  | unterminated
  /-- A backslash before a character that has no escape. -/
  | badEscape (c : Char)
  /-- An escape that denotes no character. -/
  | badUnicode
  /-- A control character that should have been escaped. -/
  | control
deriving DecidableEq, Repr

/-- Why and where a text fails to be a document. -/
structure Fault (P : Type) where
  cause : Cause P
  position : P
deriving DecidableEq, Repr

variable {P Q : Type}

/-- The cause with its positions renamed. -/
def Cause.map (f : P → Q) : Cause P → Cause Q
  | empty => empty
  | unexpectedEnd => unexpectedEnd
  | trailing => trailing
  | unexpected c => unexpected c
  | outOfRange token => outOfRange token
  | tooDeep limit => tooDeep limit
  | unclosed bracket opened => unclosed bracket (f opened)
  | mismatched bracket => mismatched bracket
  | noName c => noName c
  | noColon c => noColon c
  | noSeparator bracket c => noSeparator bracket c
  | unterminated => unterminated
  | badEscape c => badEscape c
  | badUnicode => badUnicode
  | control => control

/-- The fault with its positions renamed. -/
def Fault.map (f : P → Q) (e : Fault P) : Fault Q :=
  ⟨e.cause.map f, f e.position⟩

/-- The location in `text` where `rest` begins, which is what is left of it. -/
def locationOf (text rest : List Char) : Location :=
  Location.after (text.take (text.length - rest.length))

/-- A fault whose positions are rests of `text`, with locations instead. -/
def Fault.locate (text : List Char) (e : Fault (List Char)) : Fault Location :=
  e.map (locationOf text)

/-- A character in quotes, for messages. -/
def quote (c : Char) : String := "'" ++ String.singleton c ++ "'"

/-- The wording of a cause. -/
def Cause.message : Cause Location → String
  | empty => "Empty document"
  | unexpectedEnd => "Unexpected end of document"
  | trailing => "Unexpected symbol(s) near end of document"
  | unexpected c => "Unexpected symbol " ++ quote c
  | outOfRange token => "Number out of range: " ++ String.ofList token
  | tooDeep limit => "Maximum nesting depth of " ++ toString limit ++ " exceeded"
  | unclosed bracket opened =>
    "Unclosed " ++ quote bracket.opening ++ " opened at " ++ opened.describe
  | mismatched bracket => quote bracket.opening ++ " closed by " ++ quote bracket.other.closing
  | noName c => "Expected a field name but found " ++ quote c
  | noColon c => "Expected ':' after field name but found " ++ quote c
  | noSeparator bracket c =>
    "Expected ',' or " ++ quote bracket.closing ++ " but found " ++ quote c
  | unterminated => "Unterminated string"
  | badEscape c => "Invalid escape sequence '\\" ++ String.singleton c ++ "'"
  | badUnicode => "Invalid unicode escape"
  | control => "Unescaped control character in string"

/-- The wording of a fault. -/
def Fault.message (e : Fault Location) : String :=
  "Json syntax: " ++ e.cause.message ++ " at " ++ e.position.describe

/-- What a reading step found in front of `s` and what it left. -/
structure Read (s : List Char) (α : Type) where
  value : α
  rest : List Char
  shorter : rest.length < s.length

/-- A reading step on the text `s`. -/
abbrev Step (s : List Char) (α : Type) := Except (Fault (List Char)) (Read s α)

/-- A step on a shorter text `t`, as a step on `s`, with `f` applied to what it found. -/
def Step.after {s t : List Char} {α β : Type} (h : t.length < s.length) (f : α → β)
    (step : Step t α) : Step s β :=
  match step with
  | .ok r => .ok ⟨f r.value, r.rest, Nat.lt_trans r.shorter h⟩
  | .error e => .error e

/-- A step that fails, at the rest of the text given by `position`. -/
def fail {s : List Char} {α : Type} (cause : Cause (List Char)) (position : List Char) :
    Step s α :=
  .error ⟨cause, position⟩

end Reshape.Json
