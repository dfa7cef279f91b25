import Reshape.Json.Reading

/-!
# Quoted strings

Strings as they stand in JSON text: between quotes, with backslash escapes for the quote, the
backslash and the control characters.

## Main definitions

* `Json.quoted`: the written form of a string.
* `Json.readString`: the string that begins at a quote.
-/

namespace Reshape.Json

/-! ## Writing -/

/-- A hexadecimal digit. -/
def hexDigit (n : Nat) : Char := "0123456789abcdef".toList.getD n '0'

/-- The written form of a character inside quotes. -/
def escape (c : Char) : List Char :=
  if c = '"' then ['\\', '"']
  else if c = '\\' then ['\\', '\\']
  else if c = '\n' then ['\\', 'n']
  else if c = '\r' then ['\\', 'r']
  else if c = '\t' then ['\\', 't']
  else if c.toNat = 0x08 then ['\\', 'b']
  else if c.toNat = 0x0C then ['\\', 'f']
  else if c.toNat < 0x20 then
    ['\\', 'u', '0', '0', hexDigit (c.toNat / 16), hexDigit (c.toNat % 16)]
  else [c]

/-- The written form of a string. -/
def quoted (cs : List Char) : List Char :=
  '"' :: (cs.flatMap escape ++ ['"'])

/-! ## Reading -/

/-- The value of a hexadecimal digit of either case. -/
def hexValue? (c : Char) : Option Nat :=
  if '0' ≤ c ∧ c ≤ '9' then some (c.toNat - '0'.toNat)
  else if 'a' ≤ c ∧ c ≤ 'f' then some (c.toNat - 'a'.toNat + 10)
  else if 'A' ≤ c ∧ c ≤ 'F' then some (c.toNat - 'A'.toNat + 10)
  else none

/-- The number that four hexadecimal digits in front of a text denote. -/
def readUnit? : (s : List Char) → Option (Read s Nat)
  | a :: b :: c :: d :: rest => do
    let a ← hexValue? a
    let b ← hexValue? b
    let c ← hexValue? c
    let d ← hexValue? d
    return ⟨((a * 16 + b) * 16 + c) * 16 + d, rest, by simp only [List.length_cons]; omega⟩
  | _ => none

/-- The first unit of a surrogate pair. -/
def isHigh (u : Nat) : Bool := 0xD800 ≤ u && u < 0xDC00

/-- The second unit of a surrogate pair. -/
def isLow (u : Nat) : Bool := 0xDC00 ≤ u && u < 0xE000

/-- The character that a surrogate pair denotes. -/
def pairChar (high low : Nat) : Char :=
  Char.ofNat (0x10000 + (high - 0xD800) * 0x400 + (low - 0xDC00))

/-- What stands for a unit that denotes no character, where that is tolerated. -/
def replacement : Char := Char.ofNat 0xFFFD

/-- The second unit of a surrogate pair, which is an escape like the first. -/
def readLow? : (s : List Char) → Option (Read s Nat)
  | '\\' :: 'u' :: digits => do
    let ⟨low, rest, h⟩ ← readUnit? digits
    if isLow low then some ⟨low, rest, Nat.lt_succ_of_lt (Nat.lt_succ_of_lt h)⟩ else none
  | _ => none

/-- The character denoted by the escape whose digits are in front of a text. Surrogates count only
as a pair of two escapes; alone they are replaced if `lenient`, and refused otherwise. -/
def readUnicode? (lenient : Bool) (s : List Char) : Option (Read s Char) :=
  match readUnit? s with
  | none => none
  | some ⟨high, rest, h⟩ =>
    let alone : Option (Read s Char) := if lenient then some ⟨replacement, rest, h⟩ else none
    if isHigh high then
      match readLow? rest with
      | some ⟨low, rest, h'⟩ => some ⟨pairChar high low, rest, Nat.lt_trans h' h⟩
      | none => alone
    else if isLow high then alone
    else some ⟨Char.ofNat high, rest, h⟩

/-- The escapes of one character after the backslash. -/
def simpleEscape? : Char → Option Char
  | '"' => some '"'
  | '\\' => some '\\'
  | '/' => some '/'
  | 'b' => some (Char.ofNat 0x08)
  | 'f' => some (Char.ofNat 0x0C)
  | 'n' => some '\n'
  | 'r' => some '\r'
  | 't' => some '\t'
  | _ => none

/-- The characters up to the closing quote. A text that ends before it is a fault at `opened`, where
the string begins; every other fault is where it occurs. -/
def readBody (lenient : Bool) (opened : List Char) (s : List Char) : Step s (List Char) :=
  match s with
  | [] => fail .unterminated opened
  | '"' :: rest => .ok ⟨[], rest, by simp⟩
  | ['\\'] => fail .unterminated opened
  | '\\' :: 'u' :: digits =>
    match readUnicode? lenient digits with
    | none => fail .badUnicode s
    | some ⟨c, rest, h⟩ =>
      (readBody lenient opened rest).after (by simp only [List.length_cons]; omega) (c :: ·)
  | '\\' :: e :: rest =>
    match simpleEscape? e with
    | none => fail (.badEscape e) s
    | some c =>
      (readBody lenient opened rest).after (by simp only [List.length_cons]; omega) (c :: ·)
  | c :: rest =>
    if c.toNat < 0x20 then fail .control s
    else (readBody lenient opened rest).after (by simp only [List.length_cons]; omega) (c :: ·)
termination_by s.length
decreasing_by all_goals simp only [List.length_cons]; omega

/-- The string whose opening quote is in front of `body`. -/
def readString (lenient : Bool) (body : List Char) : Step ('"' :: body) String :=
  (readBody lenient ('"' :: body) body).after (by simp) String.ofList

example : quoted "a\"\n".toList = "\"a\\\"\\n\"".toList := by decide

end Reshape.Json
