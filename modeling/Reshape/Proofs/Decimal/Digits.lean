import Reshape.Decimal.Basic

/-!
# Rows of digits and the numbers that they denote

## Main statements

* `Decimal.ofDigits_digits`: a number is denoted by its digits.
* `Decimal.digits_mul_pow`: a power of ten appends zeros.
* `Decimal.head?_digits`: only zero begins with a zero.
-/

namespace Reshape.Decimal

theorem ofDigits_eq_ofDigitChars (cs : List Char) : ofDigits cs = Nat.ofDigitChars 10 cs 0 := by
  rw [ofDigits, Nat.ofDigitChars_eq_foldl]
  congr 1
  funext n c
  rw [Nat.mul_comm, digitValue]

theorem ofDigits_append (xs ys : List Char) :
    ofDigits (xs ++ ys) = ofDigits xs * 10 ^ ys.length + ofDigits ys := by
  rw [ofDigits_eq_ofDigitChars, Nat.ofDigitChars_append, Nat.ofDigitChars_eq_ofDigitChars_zero,
    Nat.mul_comm, ofDigits_eq_ofDigitChars, ofDigits_eq_ofDigitChars]

theorem ofDigits_digits (n : Nat) : ofDigits (digits n) = n := by
  rw [ofDigits_eq_ofDigitChars, digits, Nat.ofDigitChars_ten_toDigits]

theorem ofDigits_zeros (n : Nat) : ofDigits (List.replicate n '0') = 0 := by
  rw [ofDigits_eq_ofDigitChars, Nat.ofDigitChars_replicate_zero, Nat.mul_zero]

theorem digits_ne_nil (n : Nat) : digits n ≠ [] := Nat.toDigits_ne_nil

theorem isDigit_of_mem_digits {n : Nat} {c : Char} (h : c ∈ digits n) : c.isDigit = true :=
  Nat.isDigit_of_mem_toDigits (by decide) (by decide) h

theorem digits_of_lt_ten {n : Nat} (h : n < 10) : digits n = [n.digitChar] :=
  Nat.toDigits_of_lt_base h

theorem digits_append {n : Nat} (hn : n ≠ 0) {k : Nat} (hk : k < 10) :
    digits n ++ digits k = digits (10 * n + k) :=
  Nat.toDigits_append_toDigits (by decide) (Nat.pos_of_ne_zero hn) hk

/-- A power of ten appends zeros. -/
theorem digits_mul_pow {n : Nat} (hn : n ≠ 0) (k : Nat) :
    digits (n * 10 ^ k) = digits n ++ List.replicate k '0' := by
  induction k with
  | zero => simp
  | succ k ih =>
    have hne : n * 10 ^ k ≠ 0 :=
      Nat.mul_ne_zero hn (Nat.pos_iff_ne_zero.mp (Nat.pow_pos (by decide)))
    have hz : digits 0 = ['0'] := rfl
    rw [Nat.pow_succ, ← Nat.mul_assoc, Nat.mul_comm _ 10, ← Nat.add_zero (10 * _),
      ← digits_append hne (by decide), ih, hz, List.append_assoc, ← List.replicate_succ']

theorem length_digits_mul_pow {n : Nat} (hn : n ≠ 0) (k : Nat) :
    (digits (n * 10 ^ k)).length = (digits n).length + k := by
  rw [digits_mul_pow hn, List.length_append, List.length_replicate]

theorem lt_pow_length_digits (n : Nat) : n < 10 ^ (digits n).length :=
  (Nat.length_toDigits_le_iff (by decide) Nat.length_toDigits_pos).mp (Nat.le_refl _)

theorem pow_le_of_length_digits {n : Nat} (hn : n ≠ 0) : 10 ^ ((digits n).length - 1) ≤ n := by
  refine Nat.le_of_not_lt ?_
  intro h
  have hlen : 0 < (digits n).length := Nat.length_toDigits_pos
  rcases Nat.eq_zero_or_pos ((digits n).length - 1) with h0 | hpos
  · rw [h0, Nat.pow_zero] at h
    omega
  · have := (Nat.length_toDigits_le_iff (b := 10) (by decide) hpos).mpr h
    change (digits n).length ≤ (digits n).length - 1 at this
    omega

/-- Only zero begins with a zero. -/
theorem head?_digits {n : Nat} (hn : n ≠ 0) : (digits n).head? ≠ some '0' := by
  induction n using Nat.strongRecOn with
  | ind n ih =>
    rcases Nat.lt_or_ge n 10 with h | h
    · have htable : ∀ n < 10, n ≠ 0 → n.digitChar ≠ '0' := by decide
      rw [digits_of_lt_ten h]
      simpa using htable n h hn
    · have hq : n / 10 ≠ 0 := by omega
      rw [← Nat.div_add_mod n 10, ← digits_append hq (Nat.mod_lt _ (by decide)),
        List.head?_append]
      obtain ⟨c, cs, hc⟩ := List.exists_cons_of_ne_nil (digits_ne_nil (n / 10))
      have hne := ih (n / 10) (by omega) hq
      rw [hc] at hne ⊢
      exact hne

end Reshape.Decimal
