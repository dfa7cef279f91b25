import Reshape.Binary.Round

/-!
# What rounding depends on

Rounding depends on the value of a quotient alone, is exact on the numbers of the format, and stays
finite below the range of the infinities.

## Main statements

* `Binary.round_congr`: equal quotients are rounded to the same number.
* `Binary.round_quanta`: a finite number is rounded to itself.
* `Format.roundMagnitude_lt_infinity`: a bound below which nothing is rounded to infinity.
-/

namespace Reshape

theorem divRound_mul_right (num den : Nat) {m : Nat} (hm : 0 < m) :
    divRound (num * m) (den * m) = divRound num den := by
  have hlt : ∀ a b : Nat, a * m < b * m ↔ a < b := fun a b => Nat.mul_lt_mul_right hm
  simp only [divRound, Nat.mul_div_mul_right _ _ hm, Nat.mul_mod_mul_right, ← Nat.mul_assoc, hlt]

theorem divRound_mul_self (n : Nat) {den : Nat} (hd : 0 < den) : divRound (n * den) den = n := by
  rw [divRound_of_dvd (Nat.mul_mod_left _ _) hd, Nat.mul_div_cancel _ hd]

theorem divRound_le (num den : Nat) : divRound num den ≤ num / den + 1 := by
  simp only [divRound]
  split
  · exact Nat.le_succ _
  · split
    · exact Nat.le_refl _
    · split <;> omega

namespace Format

variable (f : Format)

theorem roundMagnitude_mul_right (num den : Nat) {m : Nat} (hm : 0 < m) :
    f.roundMagnitude (num * m) (den * m) = f.roundMagnitude num den := by
  have hscaled : num * m * 2 ^ f.scale = num * 2 ^ f.scale * m := by
    rw [Nat.mul_assoc, Nat.mul_comm m, Nat.mul_assoc]
  simp only [roundMagnitude, hscaled, Nat.mul_div_mul_right _ _ hm]
  rw [Nat.mul_assoc den, Nat.mul_comm m, ← Nat.mul_assoc den, divRound_mul_right _ _ hm]

/-- A quotient below a power of two is not rounded to infinity, if the exponent of the power is
within the range of the format. -/
theorem roundMagnitude_lt_infinity {num den k : Nat} (hd : 0 < den) (h : num < den * 2 ^ k)
    (hk : 2 ^ (f.exponentBits - 1) - 2 + k + 3 < 2 ^ f.exponentBits) :
    f.roundMagnitude num den < f.infinity := by
  have hq : num * 2 ^ f.scale / den < 2 ^ (f.scale + k) := by
    rw [Nat.div_lt_iff_lt_mul hd, Nat.pow_add, Nat.mul_comm _ den, ← Nat.mul_assoc,
      Nat.mul_right_comm]
    exact Nat.mul_lt_mul_of_pos_right h (Nat.two_pow_pos _)
  simp only [roundMagnitude]
  generalize hquot : num * 2 ^ f.scale / den = q at hq
  have hshift : Nat.log2 q - f.fractionBits ≤ 2 ^ (f.exponentBits - 1) - 2 + k := by
    rcases Nat.eq_zero_or_pos q with h0 | hpos
    · rw [h0]
      exact Nat.le_trans (Nat.sub_le _ _) (Nat.zero_le _)
    · have := (Nat.log2_lt (Nat.ne_of_gt hpos)).mpr hq
      unfold scale at this
      omega
  generalize hs : Nat.log2 q - f.fractionBits = shift at hshift
  -- What is left of the quotient fills the fraction and its leading bit.
  have hfraction : divRound (num * 2 ^ f.scale) (den * 2 ^ shift) ≤ 2 ^ (f.fractionBits + 1) := by
    have hlt : q / 2 ^ shift < 2 ^ (f.fractionBits + 1) := by
      rw [Nat.div_lt_iff_lt_mul (Nat.two_pow_pos _), ← Nat.pow_add]
      refine Nat.lt_of_lt_of_le Nat.lt_log2_self (Nat.pow_le_pow_right (by decide) ?_)
      omega
    have hle := divRound_le (num * 2 ^ f.scale) (den * 2 ^ shift)
    rw [← Nat.div_div_eq_div_mul, hquot] at hle
    omega
  refine Nat.lt_of_le_of_lt (Nat.min_le_right _ _) ?_
  have hsum : shift * 2 ^ f.fractionBits + 2 ^ (f.fractionBits + 1) =
      (shift + 2) * 2 ^ f.fractionBits := by
    rw [Nat.add_mul, Nat.pow_succ, Nat.mul_comm (2 ^ f.fractionBits)]
  have hlt : (shift + 2) * 2 ^ f.fractionBits < f.infinity :=
    Nat.mul_lt_mul_of_pos_right (by omega) (Nat.two_pow_pos _)
  omega

end Format

namespace Binary

variable {f : Format}

/-- Equal quotients are rounded to the same number. -/
theorem round_congr {negative : Bool} {num den num' den' : Nat} (hd : 0 < den) (hd' : 0 < den')
    (h : num * den' = num' * den) : round f negative num den = round f negative num' den' := by
  have hmag : f.roundMagnitude num den = f.roundMagnitude num' den' := by
    rw [← f.roundMagnitude_mul_right num den hd', h, ← f.roundMagnitude_mul_right num' den' hd,
      Nat.mul_comm den]
  simp only [round, hmag]

/-! ## Numbers of the format -/

theorem isNaN_of_isFinite {b : Binary f} (h : b.isFinite = true) : b.isNaN = false := by
  have hlt : b.magnitude < f.infinity := of_decide_eq_true h
  exact decide_eq_false (Nat.not_lt.mpr (Nat.le_of_lt hlt))

theorem shift_mul_le (b : Binary f) : b.shift * 2 ^ f.fractionBits ≤ b.magnitude :=
  Nat.le_trans (Nat.mul_le_mul_right _ (Nat.sub_le _ _)) (Nat.div_mul_le_self _ _)

theorem shift_mul_add_significand (b : Binary f) :
    b.shift * 2 ^ f.fractionBits + b.significand = b.magnitude :=
  Nat.add_sub_of_le b.shift_mul_le

/-- The fraction and its leading bit fill their place, unless the number is subnormal. -/
theorem significand_bounds (b : Binary f) :
    b.significand < 2 ^ (f.fractionBits + 1) ∧
      (b.shift ≠ 0 → 2 ^ f.fractionBits ≤ b.significand) := by
  have hadd := b.shift_mul_add_significand
  have hdiv := Nat.div_add_mod b.magnitude (2 ^ f.fractionBits)
  have hmod := Nat.mod_lt b.magnitude (Nat.two_pow_pos f.fractionBits)
  rw [Nat.mul_comm] at hdiv
  rw [Nat.pow_succ]
  rcases Nat.eq_zero_or_pos (b.magnitude / 2 ^ f.fractionBits) with h0 | hpos
  · have hs : b.shift = 0 := by rw [shift, h0]
    rw [h0] at hdiv
    rw [hs] at hadd
    exact ⟨by omega, fun h => absurd hs h⟩
  · have hs : b.magnitude / 2 ^ f.fractionBits = b.shift + 1 := by rw [shift]; omega
    rw [hs, Nat.add_mul] at hdiv
    exact ⟨by omega, fun _ => by omega⟩

/-- The binary logarithm of a number decides its shift. -/
theorem log2_quanta_sub (b : Binary f) : Nat.log2 b.quanta - f.fractionBits = b.shift := by
  obtain ⟨hlt, hle⟩ := b.significand_bounds
  rcases Nat.eq_zero_or_pos b.shift with h0 | hpos
  · rw [quanta, h0, Nat.pow_zero, Nat.mul_one]
    rcases Nat.eq_zero_or_pos b.significand with hz | hz
    · rw [hz]
      exact Nat.zero_sub _
    · have := (Nat.log2_lt (Nat.ne_of_gt hz)).mpr hlt
      omega
  · have hlow := hle (Nat.ne_of_gt hpos)
    have hpow : 0 < 2 ^ b.shift := Nat.two_pow_pos _
    have hne : b.quanta ≠ 0 := by
      have : 0 < 2 ^ f.fractionBits := Nat.two_pow_pos _
      unfold quanta
      exact Nat.mul_ne_zero (by omega) (Nat.ne_of_gt hpow)
    have hlog : Nat.log2 b.quanta = f.fractionBits + b.shift := by
      refine (Nat.log2_eq_iff hne).mpr ⟨?_, ?_⟩
      · rw [quanta, Nat.pow_add]
        exact Nat.mul_le_mul_right _ hlow
      · rw [quanta, Nat.add_right_comm, Nat.pow_add]
        exact Nat.mul_lt_mul_of_pos_right hlt hpow
    omega

/-- A finite number is rounded to itself. -/
theorem round_quanta {b : Binary f} (hb : b.isFinite = true) :
    round f b.negative b.quanta (2 ^ f.scale) = b := by
  have hfinite : b.magnitude < f.infinity := by simpa [isFinite] using hb
  have hdiv : b.quanta * 2 ^ f.scale / 2 ^ f.scale = b.quanta :=
    Nat.mul_div_cancel _ (Nat.two_pow_pos _)
  have hscaled : b.quanta * 2 ^ f.scale = b.significand * (2 ^ f.scale * 2 ^ b.shift) := by
    rw [quanta, Nat.mul_assoc, Nat.mul_comm (2 ^ b.shift)]
  have hmag : f.roundMagnitude b.quanta (2 ^ f.scale) = b.magnitude := by
    simp only [Format.roundMagnitude, hdiv, log2_quanta_sub]
    rw [hscaled, divRound_mul_self _ (Nat.mul_pos (Nat.two_pow_pos _) (Nat.two_pow_pos _)),
      shift_mul_add_significand, Nat.min_eq_right (Nat.le_of_lt hfinite)]
  rcases b with ⟨negative, magnitude, h⟩
  simp only [round, hmag]

end Binary

end Reshape
