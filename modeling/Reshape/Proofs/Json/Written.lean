import Reshape.Json.Writer
import Reshape.Proofs.Binary.OfDecimal
import Reshape.Proofs.Json.Numeral

/-!
# What is written is in the grammar

The text of a tree is one of the grammar. Strings and integers are written so that the grammar
denotes them again, and a real is written as a number that has a point and the value of its shortest
decimal.

## Main statements

* `Json.chars_escape`: strings.
* `Json.exists_numeral_intText`, `Json.exists_numeral_positional`: numbers.
-/

namespace Reshape.Json

/-! ## Strings -/

theorem hexDigit_spec {n : Nat} (h : n < 16) : HexDigit (hexDigit n) n := by
  have htable : ∀ n < 16, "0123456789abcdef".toList[n]? = some (hexDigit n) := by decide
  exact .inl (htable n h)

/-- A character is written as itself or as one escape. -/
theorem chars_escape_append (c : Char) {w m : List Char} (h : Chars w m) :
    Chars (escape c ++ w) (c :: m) := by
  have hctrl : ∀ n, c.toNat = n → c = Char.ofNat n := by
    rintro n rfl
    exact (Char.ofNat_toNat c).symm
  unfold escape
  split
  · next hc => exact .escape (by rw [hc]; decide) h
  split
  · next hc => exact .escape (by rw [hc]; decide) h
  split
  · next hc => exact .escape (by rw [hc]; decide) h
  split
  · next hc => exact .escape (by rw [hc]; decide) h
  split
  · next hc => exact .escape (by rw [hc]; decide) h
  split
  · next hc => exact .escape (by rw [hctrl _ hc]; decide) h
  split
  · next hc => exact .escape (by rw [hctrl _ hc]; decide) h
  split
  · next hlt =>
    have hunit : CodeUnit ['0', '0', hexDigit (c.toNat / 16), hexDigit (c.toNat % 16)] c.toNat :=
      ⟨_, _, _, _, 0, 0, c.toNat / 16, c.toNat % 16, rfl, .inl rfl, .inl rfl,
        hexDigit_spec (by omega), hexDigit_spec (by omega), by omega⟩
    have := Chars.unicode (.unit hunit (.inl (by omega))) h
    rw [Char.ofNat_toNat] at this
    exact this
  · next h₁ h₂ _ _ _ _ _ hge => exact .plain (Nat.not_lt.mp hge) h₁ h₂ h

theorem chars_escape (cs : List Char) : Chars (cs.flatMap escape) cs := by
  induction cs with
  | nil => exact .nil
  | cons c cs ih => exact chars_escape_append c ih

/-! ## Numbers -/

theorem isRow_digits (n : Nat) : IsRow (Decimal.digits n) :=
  ⟨Decimal.digits_ne_nil n, fun _ => Decimal.isDigit_of_mem_digits⟩

/-- The digits of a number are the whole part of a number of the grammar. -/
theorem digits_eq_zero_or_head? (n : Nat) : Decimal.digits n = ['0'] ∨
    IsRow (Decimal.digits n) ∧ (Decimal.digits n).head? ≠ some '0' := by
  by_cases hn : n = 0
  · exact .inl (by rw [hn]; rfl)
  · exact .inr ⟨isRow_digits n, Decimal.head?_digits hn⟩

/-- An integer is written as a number of the grammar that denotes it. -/
theorem exists_numeral_intText (n : Int) :
    ∃ k : Numeral, k.text = Scalar.intText n ∧ k.IsInteger ∧ k.toInt = n := by
  refine ⟨⟨n < 0, Decimal.digits n.natAbs, none, none, digits_eq_zero_or_head? _, by simp⟩, ?_,
    ⟨rfl, rfl⟩, ?_⟩
  · simp only [Numeral.text, Numeral.signText, Numeral.fractionText, Numeral.powerText,
      Scalar.intText, decide_eq_true_eq]
    split <;> simp
  · simp only [Numeral.toInt, Decimal.ofDigits_digits, decide_eq_true_eq]
    split <;> omega

/-! ### Padded digits

Digits that are padded with zeros on the left, so that `p + 1` of them stand behind the point and at
least one before it.
-/

section Padded

variable {m p : Nat} {padded : List Char}
  (h : padded = List.replicate (p + 2 - (Decimal.digits m).length) '0' ++ Decimal.digits m)

include h

theorem isDigit_of_mem_padded {c : Char} (hc : c ∈ padded) : c.isDigit = true := by
  rw [h] at hc
  rcases List.mem_append.mp hc with hc | hc
  · rw [List.eq_of_mem_replicate hc]
    rfl
  · exact Decimal.isDigit_of_mem_digits hc

theorem length_padded : padded.length = max (p + 2) (Decimal.digits m).length := by
  rw [h, List.length_append, List.length_replicate]
  omega

/-- What stands before the point is the whole part of a number of the grammar. -/
theorem whole_padded :
    padded.take (padded.length - (p + 1)) = ['0'] ∨
      IsRow (padded.take (padded.length - (p + 1))) ∧
        (padded.take (padded.length - (p + 1))).head? ≠ some '0' := by
  have hlength := length_padded h
  rcases Nat.lt_or_ge (Decimal.digits m).length (p + 2) with hlt | hge
  · refine .inl ?_
    obtain ⟨z, hz⟩ : ∃ z, p + 2 - (Decimal.digits m).length = z + 1 :=
      ⟨p + 1 - (Decimal.digits m).length, by omega⟩
    rw [show padded.length - (p + 1) = 1 by omega, h, hz]
    rfl
  · -- Nothing is padded, and a number of several digits is not zero.
    have hm : m ≠ 0 := by
      rintro rfl
      have : (Decimal.digits 0).length = 1 := rfl
      omega
    have hpad : padded = Decimal.digits m := by
      rw [h, Nat.sub_eq_zero_of_le hge]
      rfl
    have hhead := Decimal.head?_digits hm
    obtain ⟨c, cs, hc⟩ := List.exists_cons_of_ne_nil (Decimal.digits_ne_nil m)
    obtain ⟨z, hz⟩ : ∃ z, padded.length - (p + 1) = z + 1 :=
      ⟨padded.length - (p + 2), by omega⟩
    refine .inr ⟨⟨?_, fun c hc => isDigit_of_mem_padded h (List.mem_of_mem_take hc)⟩, ?_⟩
    · rw [hz, hpad, hc]
      exact List.cons_ne_nil _ _
    · rw [hc] at hhead
      rw [hz, hpad, hc]
      exact hhead

/-- What stands behind the point is `p + 1` digits. -/
theorem fraction_padded :
    IsRow (padded.drop (padded.length - (p + 1))) ∧
      (padded.drop (padded.length - (p + 1))).length = p + 1 := by
  have hlength := length_padded h
  have hdrop : (padded.drop (padded.length - (p + 1))).length = p + 1 := by
    rw [List.length_drop]
    omega
  refine ⟨⟨?_, fun c hc => isDigit_of_mem_padded h (List.mem_of_mem_drop hc)⟩, hdrop⟩
  intro h0
  rw [h0] at hdrop
  cases hdrop

theorem ofDigits_padded : Decimal.ofDigits padded = m := by
  rw [h, Decimal.ofDigits_append, Decimal.ofDigits_zeros, Nat.zero_mul, Nat.zero_add,
    Decimal.ofDigits_digits]

end Padded

/-- A decimal is written with a point, as a number of the grammar that has its value. -/
theorem exists_numeral_positional {d : Decimal} (h : d.coefficient ≠ 0 ∨ d.exponent ≤ 0) :
    ∃ n : Numeral, n.text = d.positional ∧ ¬n.IsInteger ∧ ∃ k, n.toDecimal = d.expand k := by
  rcases he : d.exponent with p | p
  · have hwhole : Decimal.digits d.coefficient ++ List.replicate p '0' =
        Decimal.digits (d.coefficient * 10 ^ p) := by
      by_cases hc : d.coefficient = 0
      · have hp : p = 0 := by
          rcases h with h | h
          · exact absurd hc h
          · rw [he, Int.ofNat_eq_natCast] at h
            omega
        simp [hp]
      · exact (Decimal.digits_mul_pow hc p).symm
    refine ⟨⟨d.negative, Decimal.digits (d.coefficient * 10 ^ p), some ['0'], none,
      digits_eq_zero_or_head? _, ?_⟩, ?_, ?_, p + 1, ?_⟩
    · rintro _ ⟨⟩
      exact isRow_digits 0
    · simp only [Numeral.text, Numeral.signText, Numeral.fractionText, Numeral.powerText,
        Decimal.positional, he, hwhole]
      split <;> simp
    · simp [Numeral.IsInteger]
    · have hzero : Decimal.ofDigits ['0'] = 0 := rfl
      simp only [Numeral.toDecimal, Option.getD_some, Decimal.ofDigits_append,
        Decimal.ofDigits_digits, hzero, Decimal.expand, he, Option.map_none, Option.getD_none,
        List.length_singleton, Int.ofNat_eq_natCast, Decimal.mk.injEq, true_and]
      refine ⟨?_, by omega⟩
      rw [Nat.pow_one, Nat.add_zero, Nat.mul_assoc, Nat.pow_succ]
  · obtain ⟨padded, hpad⟩ : ∃ padded, padded = List.replicate
        (p + 2 - (Decimal.digits d.coefficient).length) '0' ++ Decimal.digits d.coefficient :=
      ⟨_, rfl⟩
    obtain ⟨hfraction, hlength⟩ := fraction_padded hpad
    have hrow : ∀ ds ∈ some (padded.drop (padded.length - (p + 1))), IsRow ds := by
      rintro _ ⟨⟩
      exact hfraction
    refine ⟨⟨d.negative, _, _, none, whole_padded hpad, hrow⟩, ?_, ?_, 0, ?_⟩
    · simp only [Numeral.text, Numeral.signText, Numeral.fractionText, Numeral.powerText,
        Decimal.positional, he, ← hpad]
      split <;> simp
    · simp [Numeral.IsInteger]
    · simp only [Numeral.toDecimal, Option.getD_some, List.take_append_drop,
        ofDigits_padded hpad, hlength, Decimal.expand, he, Option.map_none, Option.getD_none,
        Nat.pow_zero, Nat.mul_one]
      congr 1

end Reshape.Json
