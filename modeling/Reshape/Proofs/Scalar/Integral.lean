import Reshape.Proofs.Scalar.Convert

/-!
# Integers among the doubles

Whether a real is an integer of 64 bits can be asked with doubles alone. The real is widened. It
must have no fraction, be no less than the double of the least integer, and be less than the double
of the greatest one, which is the next power of two. Then it is cut to 64 bits. No step of this
loses anything that counts, so that the test agrees with the exact one.

## Main definitions

* `Binary.fraction`, `Binary.toInt64`: the part of a number behind the point, and what is left of it
  in 64 bits.
* `Binary.isIntegral`, `Scalar.integralValue?`: the test, and what it finds.

## Main statements

* `Binary.quanta_fraction`: a fraction is not changed by rounding.
* `Binary.isIntegral_iff`, `Scalar.integralValue?_eq_some_iff`: the test agrees with the exact one.
* `Scalar.convert?_of_real`: conversion of reals to integers, with the test on doubles.
-/

namespace Reshape

namespace Binary

variable {f : Format}

/-! ## Fractions -/

/-- The part of a finite number behind the point: the difference to the next integer towards zero,
rounded as all differences are. -/
def fraction (b : Binary f) : Binary f :=
  round f b.negative (b.quanta % 2 ^ f.scale) (2 ^ f.scale)

/-- The difference is a number of the format, because it ends where the number ends. -/
theorem quanta_fraction (b : Double) :
    b.fraction.quanta = b.quanta % 2 ^ Format.double.scale := by
  have hpos : 0 < 2 ^ Format.double.scale := Nat.two_pow_pos _
  obtain ⟨s, hs, hrest⟩ : ∃ s ≤ b.significand,
      b.quanta % 2 ^ Format.double.scale = s * 2 ^ b.shift := by
    rcases Nat.le_total Format.double.scale b.shift with hle | hle
    · refine ⟨0, Nat.zero_le _, ?_⟩
      rw [quanta, Nat.zero_mul]
      exact Nat.mod_eq_zero_of_dvd (Nat.dvd_mul_left_of_dvd (Nat.pow_dvd_pow 2 hle) _)
    · refine ⟨b.significand % 2 ^ (Format.double.scale - b.shift), Nat.mod_le _ _, ?_⟩
      rw [quanta, ← Nat.mul_mod_mul_right, ← Nat.pow_add, Nat.sub_add_cancel hle]
  have hfinite : Format.double.roundMagnitude (b.quanta % 2 ^ Format.double.scale)
      (2 ^ Format.double.scale) < Format.double.infinity := by
    refine Format.double.roundMagnitude_lt_infinity (k := 0) hpos ?_ (by decide)
    rw [Nat.pow_zero, Nat.mul_one]
    exact Nat.mod_lt _ hpos
  rw [hrest] at hfinite ⊢
  rw [fraction, hrest]
  exact quanta_round hpos rfl (Nat.lt_of_le_of_lt hs b.significand_bounds.1) hfinite

/-- There is nothing behind the point just if the quanta make up whole ones. -/
theorem fraction_same_zero_iff (b : Double) :
    b.fraction.same (zero .double false) = true ↔ b.quanta % 2 ^ Format.double.scale = 0 := by
  have hzero : (zero .double false).isNaN = false ∧ (zero .double false).signed = 0 := by
    decide +kernel
  have hsigned : b.fraction.signed = 0 ↔ b.fraction.quanta = 0 := by
    unfold signed
    split <;> omega
  rw [same_eq_true_iff, ← signed_eq_signed_iff, hzero.2, hsigned, quanta_fraction]
  exact ⟨fun h => h.2.2, fun h => ⟨isNaN_round _ _ _, hzero.1, h⟩⟩

/-! ## Integers of 64 bits -/

/-- The next integer towards zero. -/
def truncate (b : Binary f) : Int := b.signed.tdiv (2 ^ f.scale : Nat)

/-- A number cut to an integer of 64 bits. What is beyond the range becomes its end, and a NaN
becomes zero. -/
def toInt64 (b : Binary f) : Int64 :=
  if b.isNaN then 0
  else if b.isFinite then
    if b.truncate < Int64.minValue.toInt then Int64.minValue
    else if Int64.maxValue.toInt < b.truncate then Int64.maxValue
    else Int64.ofInt b.truncate
  else if b.negative then Int64.minValue else Int64.maxValue

/-- The test whether a double is an integer of 64 bits. -/
def isIntegral (b : Double) : Bool :=
  b.isFinite && b.fraction.same (zero .double false) &&
    (b.compare? (ofInt .double Int64.minValue.toInt)).any Ordering.isGE &&
    (b.compare? (ofInt .double Int64.maxValue.toInt)).any Ordering.isLT

theorem isFinite_of_toInt? {b : Binary f} {n : Int} (hn : b.toInt? = some n) :
    b.isFinite = true := by
  unfold toInt? at hn
  split at hn
  · next h => exact h.1
  · cases hn

section integer

variable {b : Double} {n : Int} (hn : b.toInt? = some n)
include hn

/-- The double of the least integer is that integer, and the double of the greatest one is the next
integer. -/
theorem compare?_bounds :
    ((b.compare? (ofInt .double Int64.minValue.toInt)).any Ordering.isGE = true ↔
      Int64.minValue.toInt ≤ n) ∧
    ((b.compare? (ofInt .double Int64.maxValue.toInt)).any Ordering.isLT = true ↔
      n ≤ Int64.maxValue.toInt) := by
  obtain ⟨hleast, hleast'⟩ : (ofInt .double Int64.minValue.toInt).isFinite = true ∧
      (ofInt .double Int64.minValue.toInt).signed =
        -9223372036854775808 * (2 ^ Format.double.scale : ℕ) := by
    decide +kernel
  obtain ⟨hgreatest, hgreatest'⟩ : (ofInt .double Int64.maxValue.toInt).isFinite = true ∧
      (ofInt .double Int64.maxValue.toInt).signed =
        9223372036854775808 * (2 ^ Format.double.scale : ℕ) := by
    decide +kernel
  have hb := isFinite_of_toInt? hn
  have hmin : Int64.minValue.toInt = -9223372036854775808 := rfl
  have hmax : Int64.maxValue.toInt = 9223372036854775807 := rfl
  rw [compare?_of_isFinite hb hleast, compare?_of_isFinite hb hgreatest, hleast', hgreatest',
    (toInt?_eq_some_iff_signed hb).mp hn, hmin, hmax]
  have hpos : (0 : Int) < (2 ^ Format.double.scale : ℕ) :=
    Int.natCast_pos.mpr (Nat.two_pow_pos _)
  generalize ((2 ^ Format.double.scale : ℕ) : Int) = unit at hpos
  rw [Option.any_some, Option.any_some, Int.isGE_compare, Int.mul_le_mul_right hpos,
    Ordering.isLT_iff_eq_lt, Int.compare_eq_lt, Int.mul_lt_mul_right hpos]
  exact ⟨.rfl, by omega⟩

/-- An integer of the range is not changed. -/
theorem toInt64_of_toInt? (hin : Int64.minValue.toInt ≤ n ∧ n ≤ Int64.maxValue.toInt) :
    b.toInt64 = Int64.ofInt n := by
  have hb := isFinite_of_toInt? hn
  have htruncate : b.truncate = n := by
    rw [truncate, (toInt?_eq_some_iff_signed hb).mp hn]
    exact Int.mul_tdiv_cancel n (Int.natCast_ne_zero.mpr (Nat.ne_of_gt (Nat.two_pow_pos _)))
  rw [toInt64, isNaN_of_isFinite hb, if_neg Bool.false_ne_true, if_pos hb, htruncate,
    if_neg (Int.not_lt.mpr hin.1), if_neg (Int.not_lt.mpr hin.2)]

end integer

/-- The test accepts the integers of the range. -/
theorem isIntegral_iff (b : Double) :
    b.isIntegral = true ↔
      ∃ n, b.toInt? = some n ∧ Int64.minValue.toInt ≤ n ∧ n ≤ Int64.maxValue.toInt := by
  simp only [isIntegral, Bool.and_eq_true, fraction_same_zero_iff]
  by_cases hwhole : b.isFinite = true ∧ b.quanta % 2 ^ Format.double.scale = 0
  · obtain ⟨n, hn⟩ : ∃ n, b.toInt? = some n := ⟨_, if_pos hwhole⟩
    obtain ⟨hleast, hgreatest⟩ := compare?_bounds hn
    rw [hleast, hgreatest, hn]
    simp [hwhole]
  · have hnone : b.toInt? = none := if_neg hwhole
    simp [hnone, hwhole]

/-- A number of 32 bits is the same integer as a double. -/
theorem toInt?_cast_double (r : Single) : (r.cast .double).toInt? = r.toInt? := by
  refine Option.ext fun n => ?_
  rw [toInt?_eq_some_iff, toInt?_eq_some_iff, value?_cast_double]

end Binary

namespace Scalar

/-- The integer of 64 bits that a number is, as it is found by widening it. -/
def integralValue? (s : Scalar) : Option Int64 :=
  s.number?.bind fun r => if r.isIntegral then some r.toInt64 else none

/-- What is found for a real is the integer that it denotes, if that is in the range. -/
theorem integralValue?_eq_some_iff {s : Scalar} (hs : s.kind = .float ∨ s.kind = .double)
    {v : Int64} : s.integralValue? = some v ↔ s.integerValue? = some v.toInt := by
  obtain ⟨r, hr, hinteger⟩ : ∃ r : Double, s.number? = some r ∧ s.integerValue? = r.toInt? := by
    cases s with
    | float r => exact ⟨_, rfl, (Binary.toInt?_cast_double r).symm⟩
    | double r => exact ⟨r, rfl, rfl⟩
    | string | integer | long | boolean | null => simp [kind] at hs
  rw [integralValue?, hr, Option.bind_some, hinteger, Option.ite_none_right_eq_some]
  constructor
  · rintro ⟨hintegral, hv⟩
    obtain ⟨n, hn, hin⟩ := r.isIntegral_iff.mp hintegral
    obtain rfl : Int64.ofInt n = v :=
      (Binary.toInt64_of_toInt? hn hin).symm.trans (Option.some.inj hv)
    rw [hn, Int64.toInt_ofInt_of_le hin.1 (Int.lt_add_one_of_le hin.2)]
  · intro hv
    have hin := And.intro v.minValue_le_toInt v.toInt_le
    exact ⟨r.isIntegral_iff.mpr ⟨_, hv, hin⟩,
      by rw [Binary.toInt64_of_toInt? hv hin, Int64.ofInt_toInt]⟩

theorem exists_toInt_eq {n : Int} (hn : -9223372036854775808 ≤ n ∧ n ≤ 9223372036854775807) :
    ∃ v : Int64, v.toInt = n :=
  ⟨.ofInt n, Int64.toInt_ofInt_of_le hn.1 (Int.lt_add_one_of_le hn.2)⟩

/-- A real converts to an integer by the test on doubles. An integer of 32 bits is taken from one of
64 bits. -/
theorem convert?_of_real {s : Scalar} (hs : s.kind = .float ∨ s.kind = .double) :
    s.convert? .long = s.integralValue?.map long ∧
      s.convert? .integer = s.integralValue?.bind fun v => toInteger? v.toInt := by
  have hne : s.kind ≠ .long ∧ s.kind ≠ .integer := by rcases hs with hs | hs <;> simp [hs]
  rw [convert?, convert?, if_neg hne.1, if_neg hne.2]
  constructor <;> refine Option.ext fun t => ?_
  · simp only [Option.bind_eq_some_iff, Option.map_eq_some_iff, integralValue?_eq_some_iff hs]
    constructor
    · rintro ⟨n, hn, ht⟩
      obtain ⟨v, rfl⟩ := exists_toInt_eq (toLong?_eq_some_iff.mp ht).1
      exact ⟨v, hn, Option.some.inj ((toLong?_toInt v).symm.trans ht)⟩
    · rintro ⟨v, hv, rfl⟩
      exact ⟨v.toInt, hv, toLong?_toInt v⟩
  · simp only [Option.bind_eq_some_iff, integralValue?_eq_some_iff hs]
    constructor
    · rintro ⟨n, hn, ht⟩
      obtain ⟨hlow, hhigh⟩ := (toInteger?_eq_some_iff.mp ht).1
      obtain ⟨v, rfl⟩ := exists_toInt_eq (n := n) ⟨by omega, by omega⟩
      exact ⟨v, hn, ht⟩
    · rintro ⟨v, hv, ht⟩
      exact ⟨v.toInt, hv, ht⟩

/-- The double of the greatest integer is beyond the range. -/
example : (double (.ofInt .double Int64.maxValue.toInt)).integralValue? = none := by
  decide +kernel

end Scalar

end Reshape
