import Reshape.Decimal.Basic
import Reshape.Proofs.Tree.Leaves

/-!
# The grammar of JSON text

What a JSON text is and which tree of tokens it stands for, without regard to any reader. A tree is
given with its repeated names, as the text has them.

## Main definitions

* `Json.Spaces`: white space between tokens.
* `Json.Chars`: what stands between quotes, and the characters that it denotes.
* `Json.Numeral`: a number as it is written.
* `Json.Token`: the leaves of a text.
* `Json.ValueText`, `Json.ElementsText`, `Json.MembersText`: texts of trees, elements and members.
* `Json.Derives`: a whole text.
-/

namespace Reshape.Json

/-! ## White space -/

/-- White space between tokens. -/
def Spaces (s : List Char) : Prop := ∀ c ∈ s, c = ' ' ∨ c = '\t' ∨ c = '\r' ∨ c = '\n'

/-! ## Strings -/

/-- A hexadecimal digit of either case and its value. -/
def HexDigit (c : Char) (n : Nat) : Prop :=
  "0123456789abcdef".toList[n]? = some c ∨ "0123456789ABCDEF".toList[n]? = some c

/-- Four hexadecimal digits and the code unit that they denote. -/
def CodeUnit (ds : List Char) (u : Nat) : Prop :=
  ∃ a b c d w x y z, ds = [a, b, c, d] ∧
    HexDigit a w ∧ HexDigit b x ∧ HexDigit c y ∧ HexDigit d z ∧
    u = w * 4096 + x * 256 + y * 16 + z

/-- The letters after a backslash and the characters that they stand for. -/
def escapes : List (Char × Char) :=
  [('"', '"'), ('\\', '\\'), ('/', '/'), ('b', '\x08'), ('f', '\x0c'), ('n', '\n'), ('r', '\r'),
    ('t', '\t')]

/-- The digits of an escape that denotes a character by its number. Code units of the range of the
surrogates denote a character only in pairs of escapes, the high one first. -/
inductive UnicodeText : List Char → Char → Prop
  | unit {ds : List Char} {u : Nat} :
      CodeUnit ds u → u < 0xD800 ∨ 0xDFFF < u → UnicodeText ds (Char.ofNat u)
  | pair {ds ds' : List Char} {high low : Nat} :
      CodeUnit ds high → 0xD800 ≤ high → high ≤ 0xDBFF →
      CodeUnit ds' low → 0xDC00 ≤ low → low ≤ 0xDFFF →
      UnicodeText (ds ++ '\\' :: 'u' :: ds')
        (Char.ofNat (0x10000 + (high - 0xD800) * 0x400 + (low - 0xDC00)))

/-- What stands between quotes, and the characters that it denotes. -/
inductive Chars : List Char → List Char → Prop
  | nil : Chars [] []
  | plain {c : Char} {w m : List Char} :
      0x20 ≤ c.toNat → c ≠ '"' → c ≠ '\\' → Chars w m → Chars (c :: w) (c :: m)
  | escape {e c : Char} {w m : List Char} :
      (e, c) ∈ escapes → Chars w m → Chars ('\\' :: e :: w) (c :: m)
  | unicode {c : Char} {ds w m : List Char} :
      UnicodeText ds c → Chars w m → Chars ('\\' :: 'u' :: (ds ++ w)) (c :: m)

/-! ## Numbers -/

/-- At least one digit. -/
def IsRow (ds : List Char) : Prop := ds ≠ [] ∧ ∀ c ∈ ds, c.isDigit = true

/-- A letter e, an optional sign and digits. -/
structure Power where
  letter : Char
  sign : List Char
  digits : List Char
  letter_eq : letter = 'e' ∨ letter = 'E'
  sign_eq : sign = [] ∨ sign = ['+'] ∨ sign = ['-']
  isRow : IsRow digits

/-- A number as it is written: an optional minus, a zero or digits that do not begin with one, and
optionally a point with digits and a power of ten. -/
structure Numeral where
  minus : Bool
  whole : List Char
  fraction : Option (List Char)
  power : Option Power
  whole_eq : whole = ['0'] ∨ IsRow whole ∧ whole.head? ≠ some '0'
  isRow_fraction : ∀ ds ∈ fraction, IsRow ds

/-- The text of a power of ten. -/
def Power.text (p : Power) : List Char := p.letter :: (p.sign ++ p.digits)

/-- The exponent that a power of ten denotes. -/
def Power.value (p : Power) : Int :=
  if p.sign = ['-'] then -(Decimal.ofDigits p.digits : Int) else Decimal.ofDigits p.digits

namespace Numeral

/-- The minus of a number, if it has one. -/
def signText (n : Numeral) : List Char := if n.minus then ['-'] else []

/-- The point of a number and what follows it. -/
def fractionText (n : Numeral) : List Char :=
  match n.fraction with
  | some ds => '.' :: ds
  | none => []

/-- The power of ten of a number, if it has one. -/
def powerText (n : Numeral) : List Char :=
  match n.power with
  | some p => p.text
  | none => []

/-- The text of a number. -/
def text (n : Numeral) : List Char := n.signText ++ n.whole ++ n.fractionText ++ n.powerText

/-- Whether a number has neither a fraction nor a power of ten. -/
def IsInteger (n : Numeral) : Prop := n.fraction = none ∧ n.power = none

/-- The integer that a number without fraction and power of ten denotes. -/
def toInt (n : Numeral) : Int :=
  if n.minus then -(Decimal.ofDigits n.whole : Int) else Decimal.ofDigits n.whole

/-- The number as a decimal, without any rounding. -/
def toDecimal (n : Numeral) : Decimal where
  negative := n.minus
  coefficient := Decimal.ofDigits (n.whole ++ n.fraction.getD [])
  exponent := (n.power.map Power.value).getD 0 - (n.fraction.getD []).length

end Numeral

/-! ## Trees -/

/-- A leaf of a text. -/
inductive Token where
  | string (s : String)
  | number (n : Numeral)
  | boolean (b : Bool)
  | null

mutual

/-- A text, without white space around it, and the tree that it stands for. -/
inductive ValueText : List Char → Tree Token → Prop
  | string {w m : List Char} :
      Chars w m → ValueText ('"' :: (w ++ ['"'])) (.leaf (.string (String.ofList m)))
  | number (n : Numeral) : ValueText n.text (.leaf (.number n))
  | trueWord : ValueText ['t', 'r', 'u', 'e'] (.leaf (.boolean true))
  | falseWord : ValueText ['f', 'a', 'l', 's', 'e'] (.leaf (.boolean false))
  | nullWord : ValueText ['n', 'u', 'l', 'l'] (.leaf .null)
  | emptyArray {s : List Char} : Spaces s → ValueText ('[' :: (s ++ [']'])) (.array [])
  | array {w : List Char} {ts : List (Tree Token)} :
      ElementsText w ts → ValueText ('[' :: (w ++ [']'])) (.array ts)
  | emptyObject {s : List Char} : Spaces s → ValueText ('{' :: (s ++ ['}'])) (.object [])
  | object {w : List Char} {ms : List (String × Tree Token)} :
      MembersText w ms → ValueText ('{' :: (w ++ ['}'])) (.object ms)

/-- Elements with commas between them. -/
inductive ElementsText : List Char → List (Tree Token) → Prop
  | last {s w s' : List Char} {t : Tree Token} :
      Spaces s → ValueText w t → Spaces s' → ElementsText (s ++ (w ++ s')) [t]
  | cons {s w s' ws : List Char} {t : Tree Token} {ts : List (Tree Token)} :
      Spaces s → ValueText w t → Spaces s' → ElementsText ws ts →
      ElementsText (s ++ (w ++ (s' ++ ',' :: ws))) (t :: ts)

/-- Members with commas between them. -/
inductive MembersText : List Char → List (String × Tree Token) → Prop
  | last {s₁ k m s₂ s₃ w s₄ : List Char} {t : Tree Token} :
      Spaces s₁ → Chars k m → Spaces s₂ → Spaces s₃ → ValueText w t → Spaces s₄ →
      MembersText (s₁ ++ '"' :: (k ++ '"' :: (s₂ ++ ':' :: (s₃ ++ (w ++ s₄)))))
        [(String.ofList m, t)]
  | cons {s₁ k m s₂ s₃ w s₄ ws : List Char} {t : Tree Token} {ms : List (String × Tree Token)} :
      Spaces s₁ → Chars k m → Spaces s₂ → Spaces s₃ → ValueText w t → Spaces s₄ →
      MembersText ws ms →
      MembersText (s₁ ++ '"' :: (k ++ '"' :: (s₂ ++ ':' :: (s₃ ++ (w ++ (s₄ ++ ',' :: ws))))))
        ((String.ofList m, t) :: ms)

end

/-- A whole text: a value with white space around it. -/
def Derives (text : List Char) (t : Tree Token) : Prop :=
  ∃ s w s', text = s ++ (w ++ s') ∧ Spaces s ∧ ValueText w t ∧ Spaces s'

end Reshape.Json
