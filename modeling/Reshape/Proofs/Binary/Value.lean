import Mathlib.Algebra.Order.Field.Rat
import Mathlib.Data.Int.CharZero
import Mathlib.Data.Nat.Cast.Order.Ring
import Mathlib.Order.WithBot
import Reshape.Proofs.Binary.OfDecimal

/-!
# The value of a number

A number of a binary format is a multiple of the least positive one or infinite; a NaN has no value.
Equality of numbers is equality of values, whatever the signs of zeros. A quotient that fills no
more bits than a fraction and its leading bit have is rounded to a number of its own value, so that
small integers and the numbers of 32 bits keep their values as doubles.

## Main definitions

* `Binary.value?`: the value of a number.

## Main statements

* `Binary.same_iff`: equality of numbers is equality of values.
* `Binary.compare?_of_isFinite`: the order of finite numbers is that of their values.
* `Binary.value?_round`: what is not changed by rounding.
* `Binary.value?_ofInt`, `Binary.value?_cast_double`: small integers and numbers of 32 bits.
-/

namespace Reshape.Binary

variable {f : Format}

/-! ## Values -/

/-- A finite number in units of the least positive one, with its sign. -/
def signed (b : Binary f) : Int := if b.negative then -(b.quanta : Int) else b.quanta

/-- The value of a number: a rational number, or one of the infinities. The zeros have the same
value, and a NaN has none. -/
def value? (b : Binary f) : Option (WithBot (WithTop ℚ)) :=
  if b.isNaN then none
  else if b.isFinite then
    some (((b.signed / (2 ^ f.scale : ℕ) : ℚ) : WithTop ℚ) : WithBot (WithTop ℚ))
  else some (if b.negative then ⊥ else ⊤)

theorem value?_eq_none_iff (b : Binary f) : b.value? = none ↔ b.isNaN = true := by
  unfold value?
  split <;> simp_all
  split <;> simp

theorem value?_of_isFinite {b : Binary f} (hb : b.isFinite = true) :
    b.value? = some (((b.signed / (2 ^ f.scale : ℕ) : ℚ) : WithTop ℚ) : WithBot (WithTop ℚ)) := by
  rw [value?, isNaN_of_isFinite hb, if_neg Bool.false_ne_true, if_pos hb]

/-- What is neither finite nor a NaN is the infinity of its sign. -/
theorem value?_of_not_isFinite {b : Binary f} (hnan : b.isNaN = false) (hb : b.isFinite = false) :
    b.value? = some (if b.negative then ⊥ else ⊤) := by
  rw [value?, if_neg (by simp [hnan]), if_neg (by simp [hb])]

/-! ## Equality -/

/-- A greater magnitude is a greater value: a number that is shifted further has the leading bit of
its fraction. -/
theorem quanta_lt_quanta {a b : Binary f} (h : a.magnitude < b.magnitude) :
    a.quanta < b.quanta := by
  have hshift : a.shift ≤ b.shift := Nat.sub_le_sub_right (Nat.div_le_div_right (Nat.le_of_lt h)) 1
  have ha := a.shift_mul_add_significand
  have hb := b.shift_mul_add_significand
  rcases Nat.eq_or_lt_of_le hshift with heq | hlt
  · rw [heq] at ha
    rw [quanta, quanta, heq]
    exact Nat.mul_lt_mul_of_pos_right (by omega) (Nat.two_pow_pos _)
  · calc a.quanta < 2 ^ (f.fractionBits + 1) * 2 ^ a.shift :=
          Nat.mul_lt_mul_of_pos_right a.significand_bounds.1 (Nat.two_pow_pos _)
      _ = 2 ^ (f.fractionBits + 1 + a.shift) := (Nat.pow_add ..).symm
      _ ≤ 2 ^ (f.fractionBits + b.shift) := Nat.pow_le_pow_right (by decide) (by omega)
      _ = 2 ^ f.fractionBits * 2 ^ b.shift := Nat.pow_add ..
      _ ≤ b.quanta := Nat.mul_le_mul_right _ (b.significand_bounds.2 (by omega))

theorem quanta_eq_quanta_iff {a b : Binary f} :
    a.quanta = b.quanta ↔ a.magnitude = b.magnitude := by
  constructor
  · intro h
    rcases Nat.lt_trichotomy a.magnitude b.magnitude with hlt | heq | hlt
    · exact absurd h (Nat.ne_of_lt (quanta_lt_quanta hlt))
    · exact heq
    · exact absurd h (Nat.ne_of_gt (quanta_lt_quanta hlt))
  · intro h
    simp only [quanta, significand, shift, h]

theorem quanta_eq_zero_iff (b : Binary f) : b.quanta = 0 ↔ b.magnitude = 0 := by
  have := quanta_eq_quanta_iff (a := b) (b := zero f b.negative)
  simpa [zero, quanta, significand] using this

/-- Signed values are equal where the keys are; in particular those of the zeros. -/
theorem signed_eq_signed_iff {a b : Binary f} : a.signed = b.signed ↔ a.key = b.key := by
  have hab := quanta_eq_quanta_iff (a := a) (b := b)
  have ha := a.quanta_eq_zero_iff
  have hb := b.quanta_eq_zero_iff
  unfold signed key
  split <;> split <;> omega

/-- Signed values are in the order of the keys. -/
theorem signed_lt_signed_iff {a b : Binary f} : a.signed < b.signed ↔ a.key < b.key := by
  have hab := quanta_eq_quanta_iff (a := a) (b := b)
  have hlt := @quanta_lt_quanta f a b
  have hgt := @quanta_lt_quanta f b a
  have ha := a.quanta_eq_zero_iff
  have hb := b.quanta_eq_zero_iff
  unfold signed key
  split <;> split <;> omega

/-- Finite numbers are in the order of their values. -/
theorem compare?_of_isFinite {a b : Binary f} (ha : a.isFinite = true) (hb : b.isFinite = true) :
    a.compare? b = some (compare a.signed b.signed) := by
  simp [compare?, isNaN_of_isFinite ha, isNaN_of_isFinite hb, compare, compareOfLessAndEq,
    signed_lt_signed_iff, signed_eq_signed_iff]

theorem same_eq_true_iff {a b : Binary f} :
    a.same b = true ↔ a.isNaN = false ∧ b.isNaN = false ∧ a.key = b.key := by
  cases ha : a.isNaN <;> cases hb : b.isNaN <;> simp [same, compare?, ha, hb]

/-- What is neither finite nor a NaN has the key of an infinity. -/
theorem key_of_not_isFinite {b : Binary f} (hnan : b.isNaN = false) (hb : b.isFinite = false) :
    b.key = if b.negative then -(f.infinity : Int) else f.infinity := by
  simp only [isNaN, isFinite, decide_eq_false_iff_not] at hnan hb
  rw [key, show b.magnitude = f.infinity by omega]

/-- The infinities have keys of their own. -/
theorem key_ne_key {a b : Binary f} (hnan : a.isNaN = false) (ha : a.isFinite = false)
    (hb : b.isFinite = true) : a.key ≠ b.key := by
  have hlt : b.magnitude < f.infinity := of_decide_eq_true hb
  rw [key_of_not_isFinite hnan ha, key]
  split <;> split <;> omega

/-- The infinities have values of their own. -/
theorem value?_ne_value? {a b : Binary f} (hnan : a.isNaN = false) (ha : a.isFinite = false)
    (hb : b.isFinite = true) : a.value? ≠ b.value? := by
  rw [value?_of_not_isFinite hnan ha, value?_of_isFinite hb]
  split <;> simp

/-- Numbers are equal just if they have the same value. -/
theorem same_iff (hf : 0 < f.infinity) {a b : Binary f} :
    a.same b = true ↔ ∃ v, a.value? = some v ∧ b.value? = some v := by
  have hpos : ((2 ^ f.scale : ℕ) : ℚ) ≠ 0 := Nat.cast_ne_zero.mpr (Nat.ne_of_gt (Nat.two_pow_pos _))
  rw [same_eq_true_iff]
  cases ha : a.isNaN
  case true => simp [value?, ha]
  cases hb : b.isNaN
  case true => simp [value?, hb]
  simp only [true_and]
  cases hfa : a.isFinite <;> cases hfb : b.isFinite
  · rw [key_of_not_isFinite ha hfa, key_of_not_isFinite hb hfb, value?_of_not_isFinite ha hfa,
      value?_of_not_isFinite hb hfb]
    cases a.negative <;> cases b.negative <;> simp <;> omega
  · refine iff_of_false (key_ne_key ha hfa hfb) ?_
    rintro ⟨v, hav, hbv⟩
    exact value?_ne_value? ha hfa hfb (hav.trans hbv.symm)
  · refine iff_of_false (key_ne_key hb hfb hfa).symm ?_
    rintro ⟨v, hav, hbv⟩
    exact value?_ne_value? hb hfb hfa (hbv.trans hav.symm)
  · rw [value?_of_isFinite hfa, value?_of_isFinite hfb, ← signed_eq_signed_iff]
    simp only [Option.some.injEq, exists_eq_left', WithBot.coe_inj, WithTop.coe_inj,
      div_left_inj' hpos, Int.cast_inj]
    exact eq_comm

/-! ## Exact rounding -/

/-- The parts of a number whose shift is known. -/
theorem quanta_eq {b : Binary f} {shift r : Nat} (hb : b.magnitude = shift * 2 ^ f.fractionBits + r)
    (hr : r < 2 ^ (f.fractionBits + 1)) (hle : shift ≠ 0 → 2 ^ f.fractionBits ≤ r) :
    b.quanta = r * 2 ^ shift := by
  have hpos : 0 < 2 ^ f.fractionBits := Nat.two_pow_pos _
  have hshift : b.shift = shift := by
    have hlt : r / 2 ^ f.fractionBits < 2 := by
      rw [Nat.div_lt_iff_lt_mul hpos, Nat.mul_comm, ← Nat.pow_succ]
      exact hr
    have hone : shift ≠ 0 → 1 ≤ r / 2 ^ f.fractionBits := fun h =>
      (Nat.one_le_div_iff hpos).mpr (hle h)
    rw [Binary.shift, hb, Nat.mul_comm, Nat.mul_add_div hpos]
    omega
  rw [quanta, significand, hshift, hb, Nat.add_sub_cancel_left]

/-- A quotient that is a whole number of quanta and fills no more bits than a fraction and its
leading bit have is not changed by rounding. -/
theorem quanta_round {negative : Bool} {num den s k : Nat} (hd : 0 < den)
    (hq : num * 2 ^ f.scale = s * 2 ^ k * den) (hs : s < 2 ^ (f.fractionBits + 1))
    (hfin : f.roundMagnitude num den < f.infinity) :
    (round f negative num den).quanta = s * 2 ^ k := by
  have hdiv : num * 2 ^ f.scale / den = s * 2 ^ k := by rw [hq, Nat.mul_div_cancel _ hd]
  generalize hshift : Nat.log2 (s * 2 ^ k) - f.fractionBits = shift
  have hlog : s * 2 ^ k ≠ 0 → Nat.log2 (s * 2 ^ k) < f.fractionBits + 1 + k := fun h0 => by
    rw [Nat.log2_lt h0, Nat.pow_add]
    exact Nat.mul_lt_mul_of_pos_right hs (Nat.two_pow_pos _)
  have hle : shift ≤ k := by
    by_cases h0 : s * 2 ^ k = 0
    · simp [← hshift, h0]
    · have := hlog h0
      omega
  -- The shift takes away zeros only.
  have hsplit : s * 2 ^ k = s * 2 ^ (k - shift) * 2 ^ shift := by
    rw [Nat.mul_assoc, ← Nat.pow_add, Nat.sub_add_cancel hle]
  have hround : divRound (num * 2 ^ f.scale) (den * 2 ^ shift) = s * 2 ^ (k - shift) := by
    rw [hq, hsplit, Nat.mul_assoc, Nat.mul_comm (2 ^ shift)]
    exact divRound_mul_self _ (Nat.mul_pos hd (Nat.two_pow_pos _))
  have hmag : (round f negative num den).magnitude =
      shift * 2 ^ f.fractionBits + s * 2 ^ (k - shift) := by
    simp only [round, Format.roundMagnitude, hdiv, hshift, hround] at hfin ⊢
    omega
  rw [hsplit]
  refine quanta_eq hmag ?_ ?_
  · rw [← Nat.mul_lt_mul_right (Nat.two_pow_pos shift), ← hsplit, ← Nat.pow_add]
    refine Nat.lt_of_lt_of_le Nat.lt_log2_self (Nat.pow_le_pow_right (by decide) ?_)
    omega
  · intro hne
    have h0 : s * 2 ^ k ≠ 0 := fun h0 => by simp [h0] at hshift; omega
    rw [← Nat.mul_le_mul_right_iff (Nat.two_pow_pos shift), ← hsplit, ← Nat.pow_add]
    refine Nat.le_trans (Nat.pow_le_pow_right (by decide) ?_) (Nat.log2_self_le h0)
    omega

/-- Such a quotient keeps its value. -/
theorem value?_round {negative : Bool} {num den s k : Nat} (hd : 0 < den)
    (hq : num * 2 ^ f.scale = s * 2 ^ k * den) (hs : s < 2 ^ (f.fractionBits + 1))
    (hfin : f.roundMagnitude num den < f.infinity) :
    (round f negative num den).value? =
      some ((((if negative then -(num : ℚ) else num) / den : ℚ) : WithTop ℚ)) := by
  have hquanta : (round f negative num den).quanta = s * 2 ^ k := quanta_round hd hq hs hfin
  have hvalue : ((s * 2 ^ k : ℕ) : ℚ) / (2 ^ f.scale : ℕ) = num / den := by
    have hscale : ((2 ^ f.scale : ℕ) : ℚ) ≠ 0 :=
      Nat.cast_ne_zero.mpr (Nat.ne_of_gt (Nat.two_pow_pos _))
    rw [div_eq_div_iff hscale (Nat.cast_ne_zero.mpr (Nat.ne_of_gt hd))]
    exact_mod_cast hq.symm
  rw [value?_of_isFinite (decide_eq_true hfin), signed, hquanta]
  cases negative
  · simpa [round] using hvalue
  · simpa [round, neg_div] using hvalue

theorem isNaN_round (negative : Bool) (num den : Nat) :
    (round f negative num den).isNaN = false :=
  decide_eq_false (Nat.not_lt.mpr (Nat.min_le_left _ _))

/-- An integer up to the 53rd power of two keeps its value as a double. -/
theorem value?_ofInt {n : Int} (h : n.natAbs ≤ 2 ^ 53) :
    (ofInt .double n).value? = some (((n : ℚ) : WithTop ℚ)) := by
  have hsign : (if decide (n < 0) = true then -(n.natAbs : ℚ) else n.natAbs) / (1 : ℕ) = n := by
    rw [Nat.cast_one, div_one, ← Int.cast_natCast n.natAbs, ← Int.cast_neg, ← apply_ite]
    congr 1
    grind
  have hfin : Format.double.roundMagnitude n.natAbs 1 < Format.double.infinity :=
    Format.double.roundMagnitude_lt_infinity (k := 54) Nat.one_pos (by omega) (by decide +kernel)
  rw [ofInt, ← hsign]
  rcases Nat.eq_or_lt_of_le h with heq | hlt
  · exact value?_round (s := 1) (k := 53 + Format.double.scale) Nat.one_pos
      (by rw [heq, Nat.pow_add, Nat.one_mul, Nat.mul_one]) (by decide) hfin
  · exact value?_round (s := n.natAbs) (k := Format.double.scale) Nat.one_pos
      (by rw [Nat.mul_one]) hlt hfin

/-- A number of 32 bits keeps its value as a double. -/
theorem value?_cast_double (r : Single) : (r.cast .double).value? = r.value? := by
  cases hnan : r.isNaN
  case true => rw [cast, if_pos hnan, (value?_eq_none_iff r).mpr hnan]; rfl
  cases hfin : r.isFinite
  case false =>
    have hinfinite : (infinity .double r.negative).isNaN = false ∧
        (infinity .double r.negative).isFinite = false := by simp [isNaN, isFinite, infinity]
    rw [cast, if_neg (by simp [hnan]), if_neg (by simp [hfin]), value?_of_not_isFinite hnan hfin,
      value?_of_not_isFinite hinfinite.1 hinfinite.2]
    rfl
  have hsigned : (if r.negative = true then -(r.quanta : ℚ) else r.quanta) = r.signed := by
    unfold signed
    split <;> simp
  obtain ⟨k, hk⟩ : ∃ k, Format.double.scale = k + Format.single.scale := ⟨925, rfl⟩
  have hquanta : r.quanta * 2 ^ Format.double.scale =
      r.significand * 2 ^ (r.shift + k) * 2 ^ Format.single.scale := by
    rw [hk, quanta, Nat.pow_add, Nat.pow_add]
    ac_rfl
  have hlt : r.quanta < 2 ^ Format.single.scale * 2 ^ 2 ^ Format.single.exponentBits := by
    rw [← Nat.pow_add, Nat.add_comm]
    exact quanta_lt hfin
  rw [cast, if_neg (by simp [hnan]), if_pos hfin, value?_of_isFinite hfin, ← hsigned]
  exact value?_round (Nat.two_pow_pos _) hquanta
    (Nat.lt_of_lt_of_le r.significand_bounds.1 (by decide +kernel))
    (Format.double.roundMagnitude_lt_infinity (Nat.two_pow_pos _) hlt (by decide +kernel))

end Reshape.Binary
