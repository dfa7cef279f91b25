import Reshape.Decimal.Basic

/-!
# Number tokens

The longest number in front of a text: an optional minus, digits without a superfluous zero in
front, and optionally a fraction and a power of ten. A point or a letter e without digits behind it
does not belong to the number.

## Main definitions

* `Json.scanNumber`: the token, empty if there is none, and what follows it.
* `Json.isWhole`: whether a token has neither fraction nor power of ten.
-/

namespace Reshape.Json

/-- A minus in front of a text. -/
def scanMinus : List Char → List Char × List Char
  | '-' :: rest => (['-'], rest)
  | s => ([], s)

/-- The digits before the point: a single zero, or a row that does not begin with one. -/
def scanWhole : List Char → List Char × List Char
  | '0' :: rest => (['0'], rest)
  | s => Decimal.span s

/-- A point and at least one digit, or nothing. -/
def scanFraction : List Char → List Char × List Char
  | '.' :: rest =>
    match Decimal.span rest with
    | ([], _) => ([], '.' :: rest)
    | (ds, rest') => ('.' :: ds, rest')
  | s => ([], s)

/-- An optional sign. -/
def scanSign : List Char → List Char × List Char
  | '-' :: rest => (['-'], rest)
  | '+' :: rest => (['+'], rest)
  | s => ([], s)

/-- A letter e, an optional sign and at least one digit, or nothing. -/
def scanPower : List Char → List Char × List Char
  | [] => ([], [])
  | e :: rest =>
    if e = 'e' ∨ e = 'E' then
      let (sign, unsigned) := scanSign rest
      match Decimal.span unsigned with
      | ([], _) => ([], e :: rest)
      | (ds, rest') => (e :: (sign ++ ds), rest')
    else ([], e :: rest)

/-- The longest number in front of a text and what follows it. The token is empty if no number is
there. -/
def scanNumber (s : List Char) : List Char × List Char :=
  let (minus, s₁) := scanMinus s
  let (whole, s₂) := scanWhole s₁
  if whole = [] then ([], s)
  else
    let (fraction, s₃) := scanFraction s₂
    let (power, s₄) := scanPower s₃
    (minus ++ whole ++ fraction ++ power, s₄)

/-- Whether a token is written as an integer. -/
def isWhole (token : List Char) : Bool :=
  token.all fun c => c ≠ '.' && c ≠ 'e' && c ≠ 'E'

theorem scanMinus_append (s : List Char) : (scanMinus s).1 ++ (scanMinus s).2 = s := by
  unfold scanMinus
  split <;> simp

theorem scanWhole_append (s : List Char) : (scanWhole s).1 ++ (scanWhole s).2 = s := by
  unfold scanWhole
  split <;> simp [Decimal.span, List.takeWhile_append_dropWhile]

theorem scanFraction_append (s : List Char) :
    (scanFraction s).1 ++ (scanFraction s).2 = s := by
  unfold scanFraction
  split
  · rename_i rest
    have h : (Decimal.span rest).1 ++ (Decimal.span rest).2 = rest := by
      simp [Decimal.span, List.takeWhile_append_dropWhile]
    split <;> simp_all
  · simp

theorem scanSign_append (s : List Char) : (scanSign s).1 ++ (scanSign s).2 = s := by
  unfold scanSign
  split <;> simp

theorem scanPower_append (s : List Char) : (scanPower s).1 ++ (scanPower s).2 = s := by
  unfold scanPower
  split
  · rfl
  · rename_i e rest
    have h := scanSign_append rest
    have h' : (Decimal.span (scanSign rest).2).1 ++ (Decimal.span (scanSign rest).2).2 =
        (scanSign rest).2 := by
      simp [Decimal.span, List.takeWhile_append_dropWhile]
    split
    · dsimp only
      split
      · simp
      · simp_all
    · simp

/-- A token and what follows it are the text. -/
theorem scanNumber_append (s : List Char) : (scanNumber s).1 ++ (scanNumber s).2 = s := by
  have h₁ := scanMinus_append s
  have h₂ := scanWhole_append (scanMinus s).2
  have h₃ := scanFraction_append (scanWhole (scanMinus s).2).2
  have h₄ := scanPower_append (scanFraction (scanWhole (scanMinus s).2).2).2
  unfold scanNumber
  dsimp only
  split
  · simp
  · simp only [List.append_assoc, h₄, h₃, h₂, h₁]

example : scanNumber "-0.5e+1x".toList = ("-0.5e+1".toList, ['x']) := by decide

example : scanNumber "01".toList = (['0'], ['1']) := by decide

example : scanNumber "1.e".toList = (['1'], ['.', 'e']) := by decide

end Reshape.Json
