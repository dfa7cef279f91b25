import Reshape.Decimal.Shortest
import Reshape.Proofs.Binary.Round
import Reshape.Proofs.Decimal.Digits

/-!
# Rounding of decimals

A decimal is rounded by its value, however many digits it is written with, and the shortest decimal
of a finite number is rounded to that number.

## Main definitions

* `Decimal.expand`: a decimal with more digits.

## Main statements

* `Binary.ofDecimal_expand`, `Binary.ofDecimal_reduce`: only the value counts.
* `Binary.ofDecimal_exact`, `Binary.ofDecimal_shortest`: nothing is lost.
* `Binary.isFinite_ofDecimal`, `Binary.isFinite_ofDecimal_double`: a bound below which decimals are
  rounded to finite numbers, and that what is finite in 32 bits is finite in 64.
-/

namespace Reshape

namespace Decimal

/-- The same number with `k` more digits. -/
def expand (d : Decimal) (k : Nat) : Decimal :=
  ⟨d.negative, d.coefficient * 10 ^ k, d.exponent - k⟩

theorem eq_append_takeWhile_reverse (p : Char → Bool) (l : List Char) :
    l = (l.reverse.dropWhile p).reverse ++ (l.reverse.takeWhile p).reverse := by
  rw [← List.reverse_append, List.takeWhile_append_dropWhile, List.reverse_reverse]

/-- Only zeros are taken away at the end. -/
theorem exists_expand_reduce {d : Decimal} (h : d.coefficient ≠ 0) :
    ∃ k, d.reduce.expand k = d := by
  have hrow := eq_append_takeWhile_reverse (· = '0') (digits d.coefficient)
  generalize hz : ((digits d.coefficient).reverse.takeWhile (· = '0')) = zeros at hrow
  have hzeros : zeros.reverse = List.replicate zeros.length '0' := by
    refine List.eq_replicate_iff.mpr ⟨List.length_reverse, ?_⟩
    intro c hc
    have hall := List.all_takeWhile (p := (· = '0')) (l := (digits d.coefficient).reverse)
    rw [hz] at hall
    simpa using List.all_eq_true.mp hall c (List.mem_reverse.mp hc)
  have hdvd : 10 ^ zeros.length ∣ d.coefficient := by
    refine ⟨ofDigits ((digits d.coefficient).reverse.dropWhile (· = '0')).reverse, ?_⟩
    conv => lhs; rw [← ofDigits_digits d.coefficient, hrow]
    rw [ofDigits_append, hzeros, ofDigits_zeros, List.length_replicate, Nat.add_zero, Nat.mul_comm]
  refine ⟨zeros.length, ?_⟩
  simp only [reduce, hz, if_neg h, expand, Nat.div_mul_cancel hdvd, Int.add_sub_cancel]

end Decimal

namespace Binary

variable {f : Format}

/-! ## Only the value counts -/

/-- Rounding of a decimal, with its power of ten on one side of the quotient or the other. -/
theorem ofDecimal_eq (f : Format) (d : Decimal) :
    ofDecimal f d =
      if d.coefficient = 0 then zero f d.negative
      else if 2 ^ f.exponentBits ≤
          3 * (d.exponent + (Decimal.digits d.coefficient).length - 1) then infinity f d.negative
      else if 3 * (d.exponent + (Decimal.digits d.coefficient).length) ≤ -(f.scale + 1 : Int) then
        zero f d.negative
      else round f d.negative (d.coefficient * 10 ^ d.exponent.toNat)
        (10 ^ (-d.exponent).toNat) := by
  unfold ofDecimal
  rcases he : d.exponent with n | n
  · have hn : (-Int.ofNat n).toNat = 0 := by
      rw [Int.ofNat_eq_natCast]
      omega
    rw [hn, Nat.pow_zero]
    rfl
  · have hn : (Int.negSucc n).toNat = 0 := rfl
    rw [hn, Nat.pow_zero, Nat.mul_one]
    rfl

@[simp] theorem negative_ofDecimal (f : Format) (d : Decimal) :
    (ofDecimal f d).negative = d.negative := by
  rw [ofDecimal_eq]
  split
  · rfl
  · split
    · rfl
    · split <;> rfl

/-- More digits do not change the number. -/
theorem ofDecimal_expand (f : Format) (d : Decimal) (k : Nat) :
    ofDecimal f (d.expand k) = ofDecimal f d := by
  by_cases h : d.coefficient = 0
  · simp [ofDecimal_eq, Decimal.expand, h]
  -- Neither the place of the first digit nor the quotient is another one.
  have hplace : d.exponent - k + ((Decimal.digits d.coefficient).length + k : Nat) =
      d.exponent + (Decimal.digits d.coefficient).length := by
    omega
  have hround : ∀ negative,
      round f negative (d.coefficient * 10 ^ k * 10 ^ (d.exponent - k).toNat)
          (10 ^ (-(d.exponent - k)).toNat) =
        round f negative (d.coefficient * 10 ^ d.exponent.toNat) (10 ^ (-d.exponent).toNat) := by
    intro negative
    refine round_congr (Nat.pow_pos (by decide)) (Nat.pow_pos (by decide)) ?_
    simp only [Nat.mul_assoc, ← Nat.pow_add]
    congr 2
    omega
  have hne : d.coefficient * 10 ^ k ≠ 0 :=
    Nat.mul_ne_zero h (Nat.ne_of_gt (Nat.pow_pos (by decide)))
  simp only [ofDecimal_eq, Decimal.expand, h, hne, Decimal.length_digits_mul_pow h, hplace, hround]

theorem ofDecimal_reduce (f : Format) (d : Decimal) : ofDecimal f d.reduce = ofDecimal f d := by
  by_cases h : d.coefficient = 0
  · simp [ofDecimal_eq, Decimal.reduce, h]
  · obtain ⟨k, hk⟩ := Decimal.exists_expand_reduce h
    rw [← ofDecimal_expand f d.reduce k, hk]

/-! ## Nothing is lost -/

/-- A finite number is not beyond every power of two. -/
theorem quanta_lt {b : Binary f} (hb : b.isFinite = true) :
    b.quanta < 2 ^ (2 ^ f.exponentBits + f.scale) := by
  have hfinite : b.magnitude < f.infinity := by simpa [isFinite] using hb
  have hshift : b.shift + 1 ≤ 2 ^ f.exponentBits := by
    have hlt : b.magnitude / 2 ^ f.fractionBits < 2 ^ f.exponentBits - 1 :=
      (Nat.div_lt_iff_lt_mul (Nat.two_pow_pos _)).mpr hfinite
    unfold shift
    generalize b.magnitude / 2 ^ f.fractionBits = q at hlt
    omega
  have hscale : f.fractionBits ≤ f.scale := Nat.le_add_left _ _
  have hsig := b.significand_bounds.1
  calc b.quanta < 2 ^ (f.fractionBits + 1) * 2 ^ b.shift :=
        Nat.mul_lt_mul_of_pos_right hsig (Nat.two_pow_pos _)
    _ = 2 ^ (f.fractionBits + 1 + b.shift) := (Nat.pow_add ..).symm
    _ ≤ 2 ^ (2 ^ f.exponentBits + f.scale) := Nat.pow_le_pow_right (by decide) (by omega)

/-- The value of the exact decimal is the number. -/
theorem exact_value (b : Binary f) :
    b.exact.coefficient * 10 ^ b.exact.exponent.toNat * 2 ^ f.scale =
      b.quanta * 10 ^ (-b.exact.exponent).toNat := by
  have hpos : b.exact.exponent.toNat = 0 := by
    simp only [exact]
    omega
  have hneg : (-b.exact.exponent).toNat = f.scale - b.shift := by
    simp only [exact]
    omega
  have hpow : 2 ^ (b.shift - f.scale) * 2 ^ f.scale = 2 ^ b.shift * 2 ^ (f.scale - b.shift) := by
    rw [← Nat.pow_add, ← Nat.pow_add]
    congr 1
    omega
  rw [hpos, hneg, Nat.pow_zero, Nat.mul_one, show 10 = 2 * 5 from rfl, Nat.mul_pow]
  calc b.significand * 2 ^ (b.shift - f.scale) * 5 ^ (f.scale - b.shift) * 2 ^ f.scale
      = b.significand * (2 ^ (b.shift - f.scale) * 2 ^ f.scale) * 5 ^ (f.scale - b.shift) := by
        ac_rfl
    _ = b.significand * (2 ^ b.shift * 2 ^ (f.scale - b.shift)) * 5 ^ (f.scale - b.shift) := by
        rw [hpow]
    _ = b.quanta * (2 ^ (f.scale - b.shift) * 5 ^ (f.scale - b.shift)) := by
        unfold quanta
        ac_rfl

theorem two_pow_le_ten_pow (n : Nat) : 2 ^ (3 * n) ≤ 10 ^ n := by
  rw [Nat.pow_mul]
  exact Nat.pow_le_pow_left (by decide) n

theorem ten_pow_le_two_pow (n : Nat) : 10 ^ n ≤ 2 ^ (4 * n) := by
  rw [Nat.pow_mul]
  exact Nat.pow_le_pow_left (by decide) n

/-- A number without quanta is a zero. -/
theorem eq_zero_of_quanta {b : Binary f} (h : b.quanta = 0) : b = zero f b.negative := by
  have hsig : b.significand = 0 :=
    (Nat.mul_eq_zero.mp h).resolve_right (Nat.ne_of_gt (Nat.two_pow_pos _))
  have hshift : b.shift = 0 := by
    refine Decidable.byContradiction ?_
    intro hne
    have := b.significand_bounds.2 hne
    have : 0 < 2 ^ f.fractionBits := Nat.two_pow_pos _
    omega
  have hmag := b.shift_mul_add_significand
  rw [hsig, hshift, Nat.zero_mul] at hmag
  rcases b with ⟨negative, magnitude, hlt⟩
  simp only at hmag
  subst hmag
  rfl

theorem ten_pow_pos (n : Nat) : 0 < 10 ^ n := Nat.pow_pos (by decide)

/-- A decimal that is a positive number of quanta has its first digit high enough to count. -/
theorem not_tooSmall_of_value {d : Decimal} {quanta : Nat} (hc : d.coefficient ≠ 0)
    (hvalue : d.coefficient * 10 ^ d.exponent.toNat * 2 ^ f.scale =
      quanta * 10 ^ (-d.exponent).toNat) :
    ¬3 * (d.exponent + (Decimal.digits d.coefficient).length) ≤ -(f.scale + 1 : Int) := by
  intro hsmall
  have hhigh := Decimal.lt_pow_length_digits d.coefficient
  generalize (Decimal.digits d.coefficient).length = length at hhigh hsmall
  have hq : quanta ≠ 0 := by
    rintro rfl
    rw [Nat.zero_mul] at hvalue
    exact Nat.mul_ne_zero (Nat.mul_ne_zero hc (Nat.ne_of_gt (ten_pow_pos _)))
      (Nat.ne_of_gt (Nat.two_pow_pos _)) hvalue
  obtain ⟨m, hm⟩ : ∃ m : Nat, d.exponent + length = -m := ⟨(-(d.exponent + length)).toNat, by omega⟩
  have hlt : quanta * 10 ^ m * 10 ^ (-d.exponent).toNat <
      2 ^ f.scale * 10 ^ (-d.exponent).toNat := by
    calc quanta * 10 ^ m * 10 ^ (-d.exponent).toNat
        = quanta * 10 ^ (-d.exponent).toNat * 10 ^ m := Nat.mul_right_comm ..
      _ = d.coefficient * (10 ^ d.exponent.toNat * 10 ^ m * 2 ^ f.scale) := by
        rw [← hvalue]
        ac_rfl
      _ < 10 ^ length * (10 ^ d.exponent.toNat * 10 ^ m * 2 ^ f.scale) :=
        Nat.mul_lt_mul_of_pos_right hhigh
          (Nat.mul_pos (Nat.mul_pos (ten_pow_pos _) (ten_pow_pos _)) (Nat.two_pow_pos _))
      _ = 2 ^ f.scale * 10 ^ (length + d.exponent.toNat + m) := by
        rw [Nat.pow_add, Nat.pow_add]
        ac_rfl
      _ = 2 ^ f.scale * 10 ^ (-d.exponent).toNat := by
        congr 2
        omega
  have hone : 10 ^ m ≤ quanta * 10 ^ m := Nat.le_mul_of_pos_left _ (Nat.pos_of_ne_zero hq)
  have hpow : 2 ^ f.scale ≤ 2 ^ (3 * m) := Nat.pow_le_pow_right (by decide) (by omega)
  have := Nat.lt_of_mul_lt_mul_right hlt
  have := two_pow_le_ten_pow m
  omega

/-- A decimal that is not beyond every power of two does not have too many digits. -/
theorem not_tooLarge_of_value {d : Decimal} {quanta : Nat} (hc : d.coefficient ≠ 0)
    (hvalue : d.coefficient * 10 ^ d.exponent.toNat * 2 ^ f.scale =
      quanta * 10 ^ (-d.exponent).toNat)
    (hquanta : quanta < 2 ^ (2 ^ f.exponentBits + f.scale)) :
    ¬2 ^ f.exponentBits ≤ 3 * (d.exponent + (Decimal.digits d.coefficient).length - 1) := by
  intro hlarge
  have hlow := Decimal.pow_le_of_length_digits hc
  have hlen : 0 < (Decimal.digits d.coefficient).length :=
    List.length_pos_iff.mpr (Decimal.digits_ne_nil _)
  generalize (Decimal.digits d.coefficient).length = length at hlow hlarge hlen
  obtain ⟨m, hm⟩ : ∃ m : Nat, d.exponent + length - 1 = m :=
    ⟨(d.exponent + length - 1).toNat, by
      have : (0 : Int) < 2 ^ f.exponentBits := Int.pow_pos (by decide)
      omega⟩
  have hle : 10 ^ m * 2 ^ f.scale * 10 ^ (-d.exponent).toNat ≤
      quanta * 10 ^ (-d.exponent).toNat := by
    calc 10 ^ m * 2 ^ f.scale * 10 ^ (-d.exponent).toNat
        = 10 ^ (m + (-d.exponent).toNat) * 2 ^ f.scale := by
          rw [Nat.pow_add]
          ac_rfl
      _ = 10 ^ (length - 1) * 10 ^ d.exponent.toNat * 2 ^ f.scale := by
        rw [← Nat.pow_add]
        congr 2
        omega
      _ ≤ d.coefficient * 10 ^ d.exponent.toNat * 2 ^ f.scale :=
        Nat.mul_le_mul_right _ (Nat.mul_le_mul_right _ hlow)
      _ = quanta * 10 ^ (-d.exponent).toNat := hvalue
  have hle := Nat.le_of_mul_le_mul_right hle (ten_pow_pos _)
  have hbits : 2 ^ f.exponentBits ≤ 3 * m := by
    rw [hm] at hlarge
    exact_mod_cast hlarge
  have hpow : 2 ^ (2 ^ f.exponentBits) ≤ 10 ^ m :=
    Nat.le_trans (Nat.pow_le_pow_right (by decide) hbits) (two_pow_le_ten_pow m)
  rw [Nat.pow_add] at hquanta
  exact Nat.not_lt.mpr (Nat.le_trans (Nat.mul_le_mul_right _ hpow) hle) hquanta

/-- The exact decimal of a finite number is rounded to that number. -/
theorem ofDecimal_exact {b : Binary f} (hb : b.isFinite = true) : ofDecimal f b.exact = b := by
  have hvalue := b.exact_value
  have hsign : b.exact.negative = b.negative := rfl
  generalize b.exact = d at hvalue hsign
  rw [ofDecimal_eq, hsign]
  by_cases hc : d.coefficient = 0
  · rw [if_pos hc]
    rw [hc, Nat.zero_mul, Nat.zero_mul, eq_comm] at hvalue
    exact (eq_zero_of_quanta
      ((Nat.mul_eq_zero.mp hvalue).resolve_right (Nat.ne_of_gt (ten_pow_pos _)))).symm
  · rw [if_neg hc, if_neg (not_tooLarge_of_value hc hvalue (quanta_lt hb)),
      if_neg (not_tooSmall_of_value hc hvalue)]
    exact (round_congr (ten_pow_pos _) (Nat.two_pow_pos _) hvalue).trans (round_quanta hb)

/-- The shortest decimal of a finite number is rounded to that number. -/
theorem ofDecimal_shortest {b : Binary f} (hb : b.isFinite = true) :
    ofDecimal f b.shortest = b := by
  rw [shortest, ofDecimal_reduce]
  rcases hc : (List.range (enough f)).findSome? fun n =>
    b.firstHit? (neighbours b.exact (Decimal.digits b.exact.coefficient).length (n + 1)) with _ | d
  · exact ofDecimal_exact hb
  · obtain ⟨n, -, hn⟩ := List.exists_of_findSome?_eq_some hc
    unfold firstHit? at hn
    simpa using List.find?_some hn

/-! ## Wider formats -/

/-- A decimal whose first digit is not too high is rounded to a finite number: ten is less than the
fourth power of two. -/
theorem isFinite_ofDecimal {d : Decimal} {p : Nat}
    (hplace : d.exponent + (Decimal.digits d.coefficient).length ≤ p)
    (hp : 2 ^ (f.exponentBits - 1) - 2 + 4 * p + 3 < 2 ^ f.exponentBits) :
    (ofDecimal f d).isFinite = true := by
  have hzero : (zero f d.negative).isFinite = true :=
    decide_eq_true (Nat.mul_pos (by omega) (Nat.two_pow_pos _))
  rw [ofDecimal_eq]
  by_cases hc : d.coefficient = 0
  · rw [if_pos hc]
    exact hzero
  have hhigh := Decimal.lt_pow_length_digits d.coefficient
  generalize (Decimal.digits d.coefficient).length = length at hplace hhigh ⊢
  have hlarge : ¬(2 ^ f.exponentBits : Int) ≤ 3 * (d.exponent + length - 1) := by
    have hbits : ((4 * p : Nat) : Int) < 2 ^ f.exponentBits := by
      exact_mod_cast (by omega : 4 * p < 2 ^ f.exponentBits)
    omega
  rw [if_neg hc, if_neg hlarge]
  split
  · exact hzero
  · have hlt : d.coefficient * 10 ^ d.exponent.toNat <
        10 ^ (-d.exponent).toNat * 2 ^ (4 * p) := by
      calc d.coefficient * 10 ^ d.exponent.toNat
          < 10 ^ length * 10 ^ d.exponent.toNat :=
            Nat.mul_lt_mul_of_pos_right hhigh (ten_pow_pos _)
        _ = 10 ^ (length + d.exponent.toNat) := (Nat.pow_add ..).symm
        _ ≤ 10 ^ ((-d.exponent).toNat + p) := Nat.pow_le_pow_right (by decide) (by omega)
        _ = 10 ^ (-d.exponent).toNat * 10 ^ p := Nat.pow_add ..
        _ ≤ 10 ^ (-d.exponent).toNat * 2 ^ (4 * p) :=
            Nat.mul_le_mul_left _ (ten_pow_le_two_pow p)
    exact decide_eq_true (f.roundMagnitude_lt_infinity (ten_pow_pos _) hlt hp)

theorem isFinite_zero (negative : Bool) : (zero .double negative).isFinite = true := by
  cases negative <;> decide +kernel

/-- What is finite in 32 bits is finite in 64 bits. -/
theorem isFinite_ofDecimal_double {d : Decimal} (h : (ofDecimal .single d).isFinite = true) :
    (ofDecimal .double d).isFinite = true := by
  by_cases hc : d.coefficient = 0
  · rw [ofDecimal_eq, if_pos hc]
    exact isFinite_zero _
  · -- A higher first digit is beyond every finite number of 32 bits.
    have hplace : d.exponent + (Decimal.digits d.coefficient).length ≤ (86 : Nat) := by
      refine Int.not_lt.mp fun hlt => ?_
      have hbits : Format.single.exponentBits = 8 := rfl
      rw [ofDecimal_eq, if_neg hc, if_pos (by rw [hbits]; omega)] at h
      simp [isFinite, infinity] at h
    exact isFinite_ofDecimal hplace (by decide)

end Binary

end Reshape
