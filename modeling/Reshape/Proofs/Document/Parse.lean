import Reshape.Proofs.Document.Reachable
import Reshape.Proofs.Json.Reader

/-!
# Reading a document

A text is read as a document exactly if the grammar derives it and its leaves are scalars, and the
document shows the tree that the derivation denotes. What becomes of repeated names in it is said by
`Tree.distinct_object`.

## Main definitions

* `Json.Token.Fits`, `Json.Token.scalar`: which tokens are scalars, and which ones.

## Main statements

* `Document.leaf?_dialect_eq_some_iff`: what the dialect of documents makes of a token.
* `Document.parse_eq_ok_iff_derives`.
-/

namespace Reshape

namespace Json

instance (n : Numeral) : Decidable n.IsInteger := inferInstanceAs (Decidable (_ ∧ _))

/-- Integers need 64 bits at most, and other numbers round to a finite one. -/
def Numeral.Fits (n : Numeral) : Prop :=
  if n.IsInteger then Int64.minValue.toInt ≤ n.toInt ∧ n.toInt ≤ Int64.maxValue.toInt
  else (Binary.ofDecimal .double n.toDecimal).isFinite = true

/-- The scalar that a number denotes: an integer of the width that it needs, or a real. -/
def Numeral.scalar (n : Numeral) : Scalar :=
  if n.IsInteger then
    if Int32.minValue.toInt ≤ n.toInt ∧ n.toInt ≤ Int32.maxValue.toInt then
      .integer (.ofInt n.toInt)
    else .long (.ofInt n.toInt)
  else .ofReal (.ofDecimal .double n.toDecimal)

/-- The token is a scalar. -/
def Token.Fits : Token → Prop
  | .number n => n.Fits
  | _ => True

/-- The scalar that a token denotes. -/
def Token.scalar : Token → Scalar
  | .string s => .string s
  | .number n => n.scalar
  | .boolean b => .boolean b
  | .null => .null

end Json

namespace Document

open Json

theorem ofInt?_eq_some_iff {n : Int} {s : Scalar} :
    Scalar.ofInt? n = some s ↔
      (Int64.minValue.toInt ≤ n ∧ n ≤ Int64.maxValue.toInt) ∧
      s = if Int32.minValue.toInt ≤ n ∧ n ≤ Int32.maxValue.toInt then .integer (.ofInt n)
        else .long (.ofInt n) := by
  have h₁ : Int32.minValue.toInt = -2147483648 := rfl
  have h₂ : Int32.maxValue.toInt = 2147483647 := rfl
  have h₃ : Int64.minValue.toInt = -9223372036854775808 := rfl
  have h₄ : Int64.maxValue.toInt = 9223372036854775807 := rfl
  rw [Scalar.ofInt?, Scalar.toInteger?, Scalar.toLong?, h₁, h₂, h₃, h₄]
  by_cases hn : -2147483648 ≤ n ∧ n ≤ 2147483647
  · rw [if_pos hn, if_pos hn, Option.some_or, Option.some.injEq, eq_comm]
    exact (and_iff_right (by omega)).symm
  · rw [if_neg hn, if_neg hn, Option.none_or]
    by_cases hl : -9223372036854775808 ≤ n ∧ n ≤ 9223372036854775807
    · rw [if_pos hl, and_iff_right hl, Option.some.injEq, eq_comm]
    · rw [if_neg hl]
      exact iff_of_false (by simp) fun h => hl h.1

theorem readScalar?_text {n : Numeral} {s : Scalar} :
    readScalar? n.text = some s ↔ n.Fits ∧ s = n.scalar := by
  by_cases h : n.IsInteger
  · rw [readScalar?, if_pos (Numeral.isWhole_text.mpr h), Scalar.readInt?, Numeral.readInt?_text h,
      Option.bind_some, ofInt?_eq_some_iff, Numeral.Fits, Numeral.scalar, if_pos h, if_pos h]
  · rw [readScalar?, if_neg (mt Numeral.isWhole_text.mp h), Binary.readFinite?,
      Numeral.binaryRead?_text, Numeral.Fits, Numeral.scalar, if_neg h, if_neg h]
    rcases hf : (Binary.ofDecimal .double n.toDecimal).isFinite
    · simp [Option.filter, hf]
    · simp [Option.filter, hf, eq_comm]

theorem leaf?_dialect_eq_some_iff (k : Token) (s : Scalar) :
    dialect.leaf? k = some s ↔ k.Fits ∧ s = k.scalar := by
  cases k with
  | number n => exact readScalar?_text
  | _ => simp [Dialect.leaf?, dialect, Token.Fits, Token.scalar, eq_comm]

theorem read_dialect_eq_ok_iff {cs : List Char} {u : Tree Scalar} :
    Json.read dialect cs = .ok u ↔
      ∃ k, Derives cs k ∧ k.depth ≤ 512 ∧ k.All Token.Fits ∧ u = k.map Token.scalar := by
  rw [read_eq_ok_iff rfl]
  simp only [Tree.map_eq_map_some_iff leaf?_dialect_eq_some_iff]
  rfl

theorem parse_eq_ok_iff {text : String} {d : Document} :
    parse text = .ok d ↔ ∃ u, Json.read dialect text.toList = .ok u ∧ d = ofReading u := by
  rw [parse, parseChars]
  split
  · next u hu =>
    rw [hu]
    simp [eq_comm]
  · next e he =>
    rw [he]
    simp

/-- A text is read exactly if it is one of the grammar that nests at most 512 containers and whose
numbers are in range. The document shows the tree that the derivation denotes: of a repeated name
the last value counts, at the place of the first. -/
theorem parse_eq_ok_iff_derives (text : String) (t : Tree Scalar) :
    (∃ d, parse text = .ok d ∧ d.toTree = t) ↔
      ∃ k, Derives text.toList k ∧ k.depth ≤ 512 ∧ k.All Token.Fits ∧
        t = (k.map Token.scalar).distinct := by
  constructor
  · rintro ⟨d, hd, rfl⟩
    obtain ⟨u, hu, rfl⟩ := parse_eq_ok_iff.mp hd
    obtain ⟨k, hk, hdepth, hfits, rfl⟩ := read_dialect_eq_ok_iff.mp hu
    exact ⟨k, hk, hdepth, hfits, toTree_ofReading _⟩
  · rintro ⟨k, hk, hdepth, hfits, rfl⟩
    have hu := read_dialect_eq_ok_iff.mpr ⟨k, hk, hdepth, hfits, rfl⟩
    exact ⟨ofReading (k.map Token.scalar), parse_eq_ok_iff.mpr ⟨_, hu, rfl⟩, toTree_ofReading _⟩

end Document

end Reshape
