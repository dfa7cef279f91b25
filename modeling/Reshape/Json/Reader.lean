import Reshape.Json.Quoted
import Reshape.Json.Number
import Reshape.Tree.Basic

/-!
# Reading JSON text

A reader for trees, over what a dialect makes of the leaves. Every step of the reader takes at least
one character, which is why it ends. Members are kept as they stand, repeated names included.

## Main definitions

* `Json.Dialect`: how deep containers may nest, and what the leaves become.
* `Json.readValue`, `Json.readItems`, `Json.readMembers`: the reader.
* `Json.read`: the tree that a whole text denotes.
-/

namespace Reshape.Json

/-- White space between tokens. -/
def isSpace (c : Char) : Bool := c = ' ' || c = '\t' || c = '\n' || c = '\r'

/-- A text without its leading white space. -/
def skip (s : List Char) : List Char := s.dropWhile isSpace

theorem length_skip_le (s : List Char) : (skip s).length ≤ s.length :=
  (List.dropWhile_sublist _).length_le

theorem length_lt_of_skip_eq {s r : List Char} {c : Char} (h : skip s = c :: r) :
    r.length < s.length := by
  have := length_skip_le s
  rw [h, List.length_cons] at this
  omega

theorem skip_cons_of_not_isSpace {c : Char} (s : List Char) (h : isSpace c = false) :
    skip (c :: s) = c :: s := by
  simp [skip, h]

/-- What a reader makes of the leaves, and how deep it follows. -/
structure Dialect (α : Type) where
  /-- How many containers may be inside each other. -/
  limit : Nat
  /-- Whether an escape that denotes no character is tolerated. -/
  lenient : Bool
  /-- The leaf for a number token, if the number can be represented. -/
  number : List Char → Option α
  string : String → α
  boolean : Bool → α
  null : α

variable {α : Type}

/-- The literal in front of a text. -/
def readLiteral? (d : Dialect α) : (s : List Char) → Option (Read s α)
  | 't' :: 'r' :: 'u' :: 'e' :: rest =>
    some ⟨d.boolean true, rest, Nat.lt_add_of_pos_right (k := 4) (Nat.zero_lt_succ 3)⟩
  | 'f' :: 'a' :: 'l' :: 's' :: 'e' :: rest =>
    some ⟨d.boolean false, rest, Nat.lt_add_of_pos_right (k := 5) (Nat.zero_lt_succ 4)⟩
  | 'n' :: 'u' :: 'l' :: 'l' :: rest =>
    some ⟨d.null, rest, Nat.lt_add_of_pos_right (k := 4) (Nat.zero_lt_succ 3)⟩
  | _ => none

/-- The number in front of the text `c :: s`. -/
def readNumber (d : Dialect α) (c : Char) (s : List Char) : Step (c :: s) α :=
  match h : scanNumber (c :: s) with
  | ([], _) => fail (.unexpected c) (c :: s)
  | (t :: ts, rest) =>
    match d.number (t :: ts) with
    | none => fail (.outOfRange (t :: ts)) (c :: s)
    | some a => .ok ⟨a, rest, by
        have happ := scanNumber_append (c :: s)
        rw [h] at happ
        rw [← happ]
        simp only [List.length_append, List.length_cons]
        omega⟩

/-- A text that ends inside a container, which was opened at `opened`. -/
def unclosed {s : List Char} {β : Type} (bracket : Bracket) (opened : List Char) : Step s β :=
  fail (.unclosed bracket opened) []

mutual

/-- The value in front of a text without leading white space; `depth` more containers may be
opened. -/
def readValue (d : Dialect α) (depth : Nat) (s : List Char) : Step s (Tree α) :=
  match s with
  | [] => fail .unexpectedEnd []
  | '{' :: body =>
    match depth with
    | 0 => fail (.tooDeep d.limit) ('{' :: body)
    | inner + 1 =>
      match h : skip body with
      | '}' :: rest =>
        .ok ⟨.object [], rest, by
          have := length_lt_of_skip_eq h
          simp only [List.length_cons]
          omega⟩
      | first =>
        (readMembers d inner ('{' :: body) first).after
          (by
            have := length_skip_le body
            rw [h] at this
            simp only [List.length_cons]
            omega)
          .object
  | '[' :: body =>
    match depth with
    | 0 => fail (.tooDeep d.limit) ('[' :: body)
    | inner + 1 =>
      match h : skip body with
      | ']' :: rest =>
        .ok ⟨.array [], rest, by
          have := length_lt_of_skip_eq h
          simp only [List.length_cons]
          omega⟩
      | first =>
        (readItems d inner ('[' :: body) first).after
          (by
            have := length_skip_le body
            rw [h] at this
            simp only [List.length_cons]
            omega)
          .array
  | '"' :: body =>
    match readString d.lenient body with
    | .ok r => .ok ⟨.leaf (d.string r.value), r.rest, r.shorter⟩
    | .error e => .error e
  | c :: rest =>
    if c = '-' ∨ c.isDigit then
      match readNumber d c rest with
      | .ok r => .ok ⟨.leaf r.value, r.rest, r.shorter⟩
      | .error e => .error e
    else
      match readLiteral? d (c :: rest) with
      | some r => .ok ⟨.leaf r.value, r.rest, r.shorter⟩
      | none => fail (.unexpected c) (c :: rest)
termination_by (s.length, 0)
decreasing_by
  all_goals
    have := length_skip_le body
    rw [h] at this
    simp only [List.length_cons]
    exact Prod.Lex.left _ _ (by omega)

/-- The elements in front of a text without leading white space, up to the closing bracket, of the
array that was opened at `opened`. -/
def readItems (d : Dialect α) (depth : Nat) (opened s : List Char) : Step s (List (Tree α)) :=
  match s with
  | [] => unclosed .square opened
  | '}' :: rest => fail (.mismatched .square) ('}' :: rest)
  | c :: rest =>
    match readValue d depth (c :: rest) with
    | .error e => .error e
    | .ok ⟨t, afterValue, hv⟩ =>
      match h : skip afterValue with
      | [] => unclosed .square opened
      | ',' :: next =>
        (readItems d depth opened (skip next)).after
          (by
            have := length_lt_of_skip_eq h
            have := length_skip_le next
            omega)
          (t :: ·)
      | ']' :: next =>
        .ok ⟨[t], next, by
          have := length_lt_of_skip_eq h
          omega⟩
      | '}' :: next => fail (.mismatched .square) ('}' :: next)
      | c :: next => fail (.noSeparator .square c) (c :: next)
termination_by (s.length, 1)
decreasing_by
  · exact Prod.Lex.right _ (by decide)
  · exact Prod.Lex.left _ _ (by
      have := length_lt_of_skip_eq h
      have := length_skip_le next
      omega)

/-- The members in front of a text without leading white space, up to the closing bracket, of the
object that was opened at `opened`. -/
def readMembers (d : Dialect α) (depth : Nat) (opened s : List Char) :
    Step s (List (String × Tree α)) :=
  match s with
  | [] => unclosed .brace opened
  | ']' :: rest => fail (.mismatched .brace) (']' :: rest)
  | '"' :: body =>
    match readString d.lenient body with
    | .error e => .error e
    | .ok ⟨name, afterName, hn⟩ =>
      match hc : skip afterName with
      | [] => unclosed .brace opened
      | ':' :: afterColon =>
        match hs : skip afterColon with
        | [] => unclosed .brace opened
        | first :: more =>
          match readValue d depth (first :: more) with
          | .error e => .error e
          | .ok ⟨t, afterValue, hv⟩ =>
            have hlt : afterValue.length < ('"' :: body).length := by
              have := length_lt_of_skip_eq hc
              have := length_skip_le afterColon
              rw [hs] at this
              omega
            match h : skip afterValue with
            | [] => unclosed .brace opened
            | ',' :: next =>
              (readMembers d depth opened (skip next)).after
                (by
                  have := length_lt_of_skip_eq h
                  have := length_skip_le next
                  omega)
                ((name, t) :: ·)
            | '}' :: next =>
              .ok ⟨[(name, t)], next, by
                have := length_lt_of_skip_eq h
                omega⟩
            | ']' :: next => fail (.mismatched .brace) (']' :: next)
            | c :: next => fail (.noSeparator .brace c) (c :: next)
      | c :: next => fail (.noColon c) (c :: next)
  | c :: rest => fail (.noName c) (c :: rest)
termination_by (s.length, 1)
decreasing_by
  · exact Prod.Lex.left _ _ (by
      have := length_lt_of_skip_eq hc
      have := length_skip_le afterColon
      rw [hs] at this
      omega)
  · exact Prod.Lex.left _ _ (by
      have := length_lt_of_skip_eq h
      have := length_skip_le next
      omega)

end

/-- The tree that a whole text denotes. -/
def read (d : Dialect α) (text : List Char) : Except (Fault (List Char)) (Tree α) :=
  match skip text with
  | [] => .error ⟨.empty, []⟩
  | first :: more =>
    match readValue d d.limit (first :: more) with
    | .error e => .error e
    | .ok ⟨t, rest, _⟩ =>
      match skip rest with
      | [] => .ok t
      | c :: next => .error ⟨.trailing, c :: next⟩

end Reshape.Json
