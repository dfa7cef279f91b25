import Reshape.Json.Reader

/-!
# Options

The options of a transformation and their text: an object with the members `strict` and
`maxDepth`, or an array of the two values in this order. Each may be missing. Other members are
skipped; of what stands in them only the syntax matters.

## Main definitions

* `Config`: the options and their defaults.
* `Config.read?`: the options that a text denotes.
-/

namespace Reshape

/-- The options of a transformation. -/
structure Config where
  /-- Whether ill-formed paths, unmatched nodes and empty selections are errors. -/
  strict : Bool
  /-- How many applications of templates may be inside each other. -/
  maxDepth : Nat
deriving DecidableEq, Repr

namespace Config

/-- Nothing is an error that need not be, and templates nest 256 deep. -/
def standard : Config := ⟨false, 256⟩

/-- What the value of an option can be. -/
inductive Setting where
  | switch (b : Bool)
  | count (n : Nat)
  | other
deriving DecidableEq, Repr

/-- A number token as a setting: a row of digits that fits 64 bits is a count. -/
def readCount (token : List Char) : Setting :=
  let n := Decimal.ofDigits token
  if token.all Char.isDigit ∧ n < UInt64.size then .count n else .other

/-- Settings are read without regard to numbers that are too large, escapes that denote nothing,
or depth: no text has more containers than characters. -/
def dialect (text : List Char) : Json.Dialect Setting where
  limit := text.length
  lenient := true
  number token := some (readCount token)
  string _ := .other
  boolean := .switch
  null := .other

/-- The switch that a value is. -/
def switch? : Tree Setting → Option Bool
  | .leaf (.switch b) => some b
  | _ => none

/-- The count that a value is. -/
def count? : Tree Setting → Option Nat
  | .leaf (.count n) => some n
  | _ => none

/-- Options of which some may be missing. -/
structure Draft where
  strict : Option Bool
  maxDepth : Option Nat
deriving DecidableEq, Repr

/-- The options of a draft. -/
def ofDraft (d : Draft) : Config :=
  ⟨d.strict.getD standard.strict, d.maxDepth.getD standard.maxDepth⟩

/-- The draft with one more option. An option of the wrong type or given twice is an error, an
unknown one is skipped. -/
def Draft.set? (d : Draft) (name : String) (v : Tree Setting) : Option Draft :=
  if name = "strict" then
    match d.strict, switch? v with
    | none, some b => some { d with strict := some b }
    | _, _ => none
  else if name = "maxDepth" then
    match d.maxDepth, count? v with
    | none, some n => some { d with maxDepth := some n }
    | _, _ => none
  else some d

/-- The options in the values of an array. -/
def ofItems? : List (Tree Setting) → Option Config
  | [] => some standard
  | [s] => (switch? s).map fun b => ⟨b, standard.maxDepth⟩
  | [s, m] => do
    let b ← switch? s
    let n ← count? m
    return ⟨b, n⟩
  | _ => none

/-- The members in front of a text without leading white space, added to a draft, and what follows
the closing brace. Unlike the strings in values, names have to denote a text. -/
def readMembers? (d : Json.Dialect Setting) (draft : Draft) (s : List Char) :
    Option (Draft × List Char) :=
  match s with
  | '"' :: body =>
    match Json.readString false body with
    | .error _ => none
    | .ok ⟨name, afterName, _⟩ =>
      match _hc : Json.skip afterName with
      | ':' :: afterColon =>
        match Json.readValue d d.limit (Json.skip afterColon) with
        | .error _ => none
        | .ok ⟨v, afterValue, _⟩ =>
          match draft.set? name v with
          | none => none
          | some draft =>
            match _h : Json.skip afterValue with
            | ',' :: next => readMembers? d draft (Json.skip next)
            | '}' :: next => some (draft, next)
            | _ => none
      | _ => none
  | _ => none
termination_by s.length
decreasing_by
  have := Json.length_lt_of_skip_eq _hc
  have := Json.length_lt_of_skip_eq _h
  have := Json.length_skip_le afterColon
  have := Json.length_skip_le next
  omega

/-- The options in the text of an object, and what follows it. -/
def readObject? (d : Json.Dialect Setting) (body : List Char) : Option (Config × List Char) :=
  match Json.skip body with
  | '}' :: rest => some (standard, rest)
  | first => (readMembers? d ⟨none, none⟩ first).map fun (draft, rest) => (ofDraft draft, rest)

/-- The options in the text of an array, and what follows it. -/
def readArray? (d : Json.Dialect Setting) (s : List Char) : Option (Config × List Char) :=
  match Json.readValue d d.limit s with
  | .ok ⟨.array items, rest, _⟩ => (ofItems? items).map fun c => (c, rest)
  | _ => none

/-- The options that a text denotes. -/
def read? (text : String) : Option Config :=
  let cs := text.toList
  let read :=
    match Json.skip cs with
    | '{' :: body => readObject? (dialect cs) body
    | s => readArray? (dialect cs) s
  match read with
  | some (c, rest) => if Json.skip rest = [] then some c else none
  | none => none

end Config

end Reshape
