import Reshape.Path.Basic
import Reshape.Path.Split
import Reshape.Text.Blank

/-!
# Reading steps

The grammar of a step: an optional axis with two colons, a segment, and an optional bracketed
predicate of two operands around an operator, which may stand inside `not( )`. Everything is
trimmed of blanks.

A sign in the predicate is always its operator. Words stand between single spaces; of several, the
last that leaves something on its right counts.

## Main definitions

* `Path.readHead?`, `Path.readCondition?`, `Path.readStep`: the parts of the grammar.
* `Path.compile`: the path of a text, in which steps outside the grammar select nothing.
* `Path.compileStrict`: the path of a text whose steps are all within the grammar.
-/

namespace Reshape.Path

open Text (trim)

/-! ## Axis and segment -/

/-- The axis and the segment in front of the brackets. A colon stands there only as one of the two
that end the axis. -/
def readHead? (cs : List Char) : Option (Axis × Segment) :=
  let first := cs.takeWhile (· ≠ ':')
  let (axis, segment, fits) :=
    match cs.dropWhile (· ≠ ':') with
    | [] => ([], first, true)
    | ':' :: ':' :: rest => (first, rest, rest.all (· ≠ ':'))
    | _ => ([], [], false)
  if fits ∧ cs.all (· ≠ ']') then
    some (.ofName (.ofList (trim axis)), .ofText (.ofList (trim segment)))
  else none

/-! ## Predicates -/

/-- The characters that operands do not contain. -/
def isReserved (c : Char) : Bool :=
  c = '!' || c = '=' || c = '<' || c = '>' || c = '(' || c = ')'

/-- The sign in front of a text, and what follows it. -/
def readSign? : List Char → Option (Relation × List Char)
  | '=' :: rest => some (.equal, rest)
  | '!' :: '=' :: rest => some (.notEqual, rest)
  | '<' :: '=' :: rest => some (.lessOrEqual, rest)
  | '<' :: rest => some (.less, rest)
  | '>' :: '=' :: rest => some (.greaterOrEqual, rest)
  | '>' :: rest => some (.greater, rest)
  | _ => none

/-- The word between spaces in front of a text, and what follows it, if that is anything. -/
def readWord? : List Char → Option (Relation × List Char)
  | ' ' :: a :: b :: ' ' :: c :: rest => (Relation.ofWord? a b).map fun r => (r, c :: rest)
  | _ => none

/-- The last word of a text that is followed by something, with what stands on its two sides. -/
def splitLastWord? : List Char → Option (List Char × Relation × List Char)
  | [] => none
  | c :: rest =>
    match splitLastWord? rest with
    | some (left, r, right) => some (c :: left, r, right)
    | none => (readWord? (c :: rest)).map fun (r, right) => ([], r, right)

/-- Two operands and the operator between them. Neither operand is empty. -/
def readComparison? (cs : List Char) : Option (List Char × Operator × List Char) :=
  let plain := cs.takeWhile (!isReserved ·)
  match plain, cs.dropWhile (!isReserved ·) with
  | [], _ => none
  | first :: rest, [] =>
    (splitLastWord? rest).map fun (left, r, right) => (first :: left, .keyword r, right)
  | left, sign =>
    match readSign? sign with
    | some (r, right) =>
      if right ≠ [] ∧ right.all (!isReserved ·) then some (left, .symbol r, right) else none
    | none => none

/-- What stands between the brackets of a step. -/
structure Condition where
  /-- Whether it begins with `not(`. -/
  negated : Bool
  /-- Whether it ends with a closing parenthesis. -/
  closed : Bool
  left : List Char
  operator : Operator
  right : List Char
deriving DecidableEq, Repr

/-- A text without the final closing parenthesis, and whether it had one. -/
def dropClosing (cs : List Char) : List Char × Bool :=
  if cs.getLast? = some ')' then (cs.dropLast, true) else (cs, false)

/-- A text without `not(` in front, and whether it had it. -/
def dropNot : List Char → List Char × Bool
  | 'n' :: 'o' :: 't' :: '(' :: rest => (rest, true)
  | cs => (cs, false)

/-- The condition between the brackets of a step. -/
def readCondition? (cs : List Char) : Option Condition :=
  let (opened, negated) := dropNot cs
  let (comparison, closed) := dropClosing opened
  (readComparison? comparison).map fun (left, operator, right) =>
    ⟨negated, closed, trim left, operator, trim right⟩

/-- The predicate of a condition; `not(` has to be closed. -/
def Condition.predicate? (c : Condition) : Option Predicate :=
  if c.negated ∧ ¬c.closed then none
  else some ⟨c.negated, .ofList c.left, c.operator, .ofList c.right⟩

/-! ## Steps -/

/-- A step that was read. -/
structure Reading where
  step : Step
  /-- Whether the text is within the grammar. -/
  wellFormed : Bool
deriving DecidableEq, Repr

/-- The step of a text. A text outside the grammar makes the inert step, save one whose only fault
is that `not(` is not closed: it keeps its axis and segment. -/
def readStep (cs : List Char) : Reading :=
  let head := cs.takeWhile (· ≠ '[')
  match readHead? head, cs.dropWhile (· ≠ '[') with
  | none, _ => ⟨.inert, false⟩
  | some (axis, segment), [] => ⟨⟨axis, segment, none⟩, true⟩
  | some (axis, segment), _ :: inner =>
    if inner.getLast? = some ']' then
      match readCondition? inner.dropLast with
      | none => ⟨.inert, false⟩
      | some condition =>
        ⟨⟨axis, segment, condition.predicate?⟩, condition.predicate?.isSome⟩
    else ⟨.inert, false⟩

/-! ## Paths -/

/-- The path of a text. Steps outside the grammar select nothing. -/
def compileChars (cs : List Char) : Path where
  absolute := cs.head? = some '/'
  steps := (splitSteps cs).map fun s => (readStep s).step

/-- The path of a text. Steps outside the grammar select nothing. -/
def compile (text : String) : Path := compileChars text.toList

/-- A path with a step outside the grammar. -/
structure MalformedStep where
  path : String
  step : String
deriving DecidableEq, Repr

/-- The wording of a refused path. -/
def MalformedStep.message (e : MalformedStep) : String :=
  "Malformed step '" ++ e.step ++ "' in path '" ++ e.path ++ "'"

/-- The path of a text, or the first of its steps that is outside the grammar. -/
def compileStrict (text : String) : Except MalformedStep Path :=
  match (splitSteps text.toList).find? fun s => !(readStep s).wellFormed with
  | some s => .error ⟨text, .ofList s⟩
  | none => .ok (compile text)

/-- The path of a text, compiled strictly or not. -/
def compileWith (strict : Bool) (text : String) : Except MalformedStep Path :=
  if strict then compileStrict text else .ok (compile text)

end Reshape.Path
