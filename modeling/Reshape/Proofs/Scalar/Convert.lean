import Reshape.Proofs.Document.RoundTrip
import Reshape.Proofs.Tree.Same
import Reshape.Scalar.Convert

/-!
# Conversion keeps values

A number converts to an integer of 32 or 64 bits just if its exact value is an integer in the range,
and the integer has that value. Truth values, integers and finite reals are read back from their
texts as they were, each as a scalar of its own kind, and zeros with their signs.

## Main definitions

* `Scalar.Value.ofInt`: the value of an integer.
* `Scalar.Kind.range?`: the least and the greatest number of a kind of integers.
* `Scalar.isDefinite`: truth values, integers and finite reals.

## Main statements

* `Binary.toInt?_eq_some_iff`: the numbers of a format that are integers.
* `Scalar.convert_eq_ok_iff`: conversion to integers.
* `Scalar.convert_string_text`: conversion to a text and back.
* `Scalar.convert_exact`.
-/

namespace Reshape

/-! ## Reals that are integers -/

namespace Binary

variable {f : Format}

/-- A finite number is an integer if it is so many times the quanta that make one. -/
theorem toInt?_eq_some_iff_signed {b : Binary f} (hb : b.isFinite = true) {n : Int} :
    b.toInt? = some n ↔ b.signed = n * (2 ^ f.scale : ℕ) := by
  have hpos : 0 < 2 ^ f.scale := Nat.two_pow_pos _
  unfold toInt? signed
  generalize 2 ^ f.scale = unit at hpos ⊢
  generalize b.quanta = q
  have hdvd : ∀ k : Int, q % unit = 0 ∧ ((q / unit : ℕ) : Int) = k ↔ (q : Int) = k * unit := by
    intro k
    constructor
    · rintro ⟨h, rfl⟩
      exact_mod_cast (Nat.div_mul_cancel (Nat.dvd_of_mod_eq_zero h)).symm
    · intro h
      have hmul : unit ∣ q := Int.natCast_dvd_natCast.mp ⟨k, by rw [h, Int.mul_comm]⟩
      refine ⟨Nat.mod_eq_zero_of_dvd hmul, ?_⟩
      rw [Int.natCast_ediv, h, Int.mul_ediv_cancel _ (Int.natCast_ne_zero.mpr (Nat.ne_of_gt hpos))]
  simp only [hb, true_and, Option.ite_none_right_eq_some, Option.some.injEq]
  cases b.negative
  case false => exact hdvd n
  case true =>
    simp only [if_true, neg_eq_iff_eq_neg, ← neg_mul]
    exact hdvd (-n)

/-- A number is an integer just if that is its value. -/
theorem toInt?_eq_some_iff {b : Binary f} {n : Int} :
    b.toInt? = some n ↔ b.value? = some (((n : ℚ) : WithTop ℚ) : WithBot (WithTop ℚ)) := by
  have hpos : ((2 ^ f.scale : ℕ) : ℚ) ≠ 0 := Nat.cast_ne_zero.mpr (Nat.ne_of_gt (Nat.two_pow_pos _))
  cases hfin : b.isFinite
  case false =>
    have hnone : b.toInt? = none := by simp [toInt?, hfin]
    rw [hnone]
    refine iff_of_false (by simp) ?_
    cases hnan : b.isNaN
    · rw [value?_of_not_isFinite hnan hfin]
      split <;> simp
    · simp [(value?_eq_none_iff b).mpr hnan]
  case true =>
    rw [toInt?_eq_some_iff_signed hfin, value?_of_isFinite hfin]
    simp only [Option.some.injEq, WithBot.coe_inj, WithTop.coe_inj]
    rw [div_eq_iff hpos]
    exact_mod_cast Iff.rfl

/-- The numeral of a finite number is read back. -/
theorem readFinite?_numeral {b : Binary f} (hb : b.isFinite = true) :
    readFinite? f b.numeral = some b := by
  obtain ⟨n, hn, -, hvalue⟩ := Json.exists_numeral_numeral b
  rw [readFinite?, ← hn, n.binaryRead?_text, hvalue, ofDecimal_shortest hb]
  simp [hb]

end Binary

namespace Scalar

/-! ## Values and ranges -/

/-- The value of an integer. -/
abbrev Value.ofInt (n : Int) : Value := .number ((n : ℚ) : WithTop ℚ)

/-- The least and the greatest number of a kind of integers. -/
def Kind.range? : Kind → Option (Int × Int)
  | integer => some (-2147483648, 2147483647)
  | long => some (-9223372036854775808, 9223372036854775807)
  | _ => none

/-- Truth values, integers and finite reals. -/
def isDefinite : Scalar → Bool
  | boolean _ | integer _ | long _ => true
  | float r => r.isFinite
  | double r => r.isFinite
  | string _ | null => false

/-! ## Numbers to integers -/

/-- A number converts by its value. -/
theorem integerValue?_eq_some_iff {s : Scalar} (hs : s.isNumeric = true) {n : Int} :
    s.integerValue? = some n ↔ s.value? = some (.ofInt n) := by
  cases s with
  | integer m => simp [integerValue?, value?]
  | long m => simp [integerValue?, value?]
  | float r => simp [integerValue?, value?, Binary.toInt?_eq_some_iff]
  | double r => simp [integerValue?, value?, Binary.toInt?_eq_some_iff]
  | string | boolean | null => cases hs

/-- Integers of 32 bits are those of the range. -/
theorem toInteger?_eq_some_iff {n : Int} {t : Scalar} :
    toInteger? n = some t ↔ (-2147483648 ≤ n ∧ n ≤ 2147483647) ∧ t.kind = .integer ∧
      t.value? = some (.ofInt n) := by
  have hrange : Int32.minValue.toInt ≤ n ∧ n ≤ Int32.maxValue.toInt ↔
      -2147483648 ≤ n ∧ n ≤ 2147483647 := Iff.rfl
  rw [toInteger?, Option.ite_none_right_eq_some, hrange]
  refine and_congr_right fun h => ?_
  have htoInt : (Int32.ofInt n).toInt = n := Int32.toInt_ofInt_of_le h.1 (by omega)
  cases t with
  | integer m =>
    have hm : Int32.ofInt n = m ↔ m.toInt = n := by rw [← Int32.toInt_inj, htoInt, eq_comm]
    simp [kind, value?, hm]
  | _ => simp [kind]

/-- Integers of 64 bits are those of the range. -/
theorem toLong?_eq_some_iff {n : Int} {t : Scalar} :
    toLong? n = some t ↔ (-9223372036854775808 ≤ n ∧ n ≤ 9223372036854775807) ∧ t.kind = .long ∧
      t.value? = some (.ofInt n) := by
  have hrange : Int64.minValue.toInt ≤ n ∧ n ≤ Int64.maxValue.toInt ↔
      -9223372036854775808 ≤ n ∧ n ≤ 9223372036854775807 := Iff.rfl
  rw [toLong?, Option.ite_none_right_eq_some, hrange]
  refine and_congr_right fun h => ?_
  have htoInt : (Int64.ofInt n).toInt = n := Int64.toInt_ofInt_of_le h.1 (by omega)
  cases t with
  | long m =>
    have hm : Int64.ofInt n = m ↔ m.toInt = n := by rw [← Int64.toInt_inj, htoInt, eq_comm]
    simp [kind, value?, hm]
  | _ => simp [kind]

theorem toInteger?_toInt (n : Int32) : toInteger? n.toInt = some (integer n) :=
  toInteger?_eq_some_iff.mpr ⟨⟨n.minValue_le_toInt, n.toInt_le⟩, rfl, rfl⟩

theorem toLong?_toInt (n : Int64) : toLong? n.toInt = some (long n) :=
  toLong?_eq_some_iff.mpr ⟨⟨n.minValue_le_toInt, n.toInt_le⟩, rfl, rfl⟩

theorem convert_eq_ok_iff {s t : Scalar} {target : Kind} :
    s.convert target = .ok t ↔ s.convert? target = some t := by
  unfold convert
  cases s.convert? target <;> simp

section range

variable {target : Kind} {low high : Int} (hrange : target.range? = some (low, high))
include hrange

/-- A number converts to just the integer of its value, if that is in the range. -/
theorem convert_eq_ok_iff_value? {s t : Scalar} (hs : s.isNumeric = true)
    (hne : s.kind ≠ target) :
    s.convert target = .ok t ↔
      ∃ n : Int, s.value? = some (.ofInt n) ∧ (low ≤ n ∧ n ≤ high) ∧
        t.kind = target ∧ t.value? = some (.ofInt n) := by
  rw [convert_eq_ok_iff, convert?.eq_def, if_neg hne]
  cases target with
  | integer =>
    cases hrange
    simp only [Option.bind_eq_some_iff, integerValue?_eq_some_iff hs, toInteger?_eq_some_iff]
  | long =>
    cases hrange
    simp only [Option.bind_eq_some_iff, integerValue?_eq_some_iff hs, toLong?_eq_some_iff]
  | _ => cases hrange

/-- Every integer of the range is the value of a scalar of the kind. -/
theorem exists_value?_eq {n : Int} (hn : low ≤ n ∧ n ≤ high) :
    ∃ t : Scalar, t.kind = target ∧ t.value? = some (.ofInt n) := by
  cases target with
  | integer =>
    cases hrange
    exact ⟨integer (.ofInt n), (toInteger?_eq_some_iff.mp (if_pos hn)).2⟩
  | long =>
    cases hrange
    exact ⟨long (.ofInt n), (toLong?_eq_some_iff.mp (if_pos hn)).2⟩
  | _ => cases hrange

end range

/-! ## Texts and back -/

theorem readInt?_intText (n : Int) : Decimal.readInt? (intText n) = some n := by
  obtain ⟨k, hk, hinteger, hn⟩ := Json.exists_numeral_intText n
  rw [← hk, Json.Numeral.readInt?_text hinteger, hn]

/-- The text of a truth value, an integer or a finite real is read back as the scalar that it is the
text of. -/
theorem convert_string_text {s : Scalar} (hs : s.isDefinite = true) :
    (string s.toText).convert s.kind = .ok s := by
  rw [convert_eq_ok_iff]
  cases s with
  | boolean b => cases b <;> rfl
  | integer n =>
    simp [convert?, kind, integerValue?, toText, text, readInt?_intText, toInteger?_toInt]
  | long n =>
    simp [convert?, kind, integerValue?, toText, text, readInt?_intText, toLong?_toInt]
  | float r =>
    simp [convert?, kind, toFloat?, toText, text, realText, show r.isFinite = true from hs,
      Binary.readFinite?_numeral]
  | double r =>
    simp [convert?, kind, toDouble?, toText, text, realText, show r.isFinite = true from hs,
      Binary.readFinite?_numeral]
  | string | null => cases hs

/-! ## Conversion -/

/-- Conversion is exact. A number converts to a kind of integers other than its own just if it is
finite and its value is an integer in the range of the kind, and the result has that value. Truth
values, integers and finite reals convert to their text, which converts back to them. -/
theorem convert_exact (s : Scalar) :
    (∀ (target : Kind) (low high : Int), s.isNumeric = true → s.kind ≠ target →
      target.range? = some (low, high) →
      ((∃ t, s.convert target = .ok t) ↔
        ∃ n : Int, s.value? = some (.ofInt n) ∧ low ≤ n ∧ n ≤ high) ∧
      ∀ t, s.convert target = .ok t → t.kind = target ∧ t.value? = s.value?) ∧
    (s.isDefinite = true → ∃ text, s.convert .string = .ok (.string text) ∧
      (Scalar.string text).convert s.kind = .ok s) := by
  constructor
  · intro target low high hs hne hrange
    have hiff := fun t => convert_eq_ok_iff_value? hrange (t := t) hs hne
    refine ⟨⟨?_, ?_⟩, ?_⟩
    · rintro ⟨t, ht⟩
      obtain ⟨n, hn, hin, -⟩ := (hiff t).mp ht
      exact ⟨n, hn, hin⟩
    · rintro ⟨n, hn, hin⟩
      obtain ⟨t, ht⟩ := exists_value?_eq hrange hin
      exact ⟨t, (hiff t).mpr ⟨n, hn, hin, ht⟩⟩
    · intro t ht
      obtain ⟨n, hn, -, hkind, hvalue⟩ := (hiff t).mp ht
      exact ⟨hkind, hvalue.trans hn.symm⟩
  · intro hs
    refine ⟨s.toText, ?_, convert_string_text hs⟩
    rw [convert_eq_ok_iff, convert?, if_neg]
    cases s <;> simp [isDefinite, kind] at hs ⊢

/-- The least long integer is a double, and the double next to the greatest one is beyond the
range. The negative zero keeps its sign in its text. -/
theorem convert_exact_edges :
    let least : Scalar := double (.ofInt .double (-9223372036854775808))
    let beyond : Scalar := double (.ofInt .double 9223372036854775807)
    let negativeZero : Scalar := float (.zero .single true)
    least.convert .long = .ok (long (-9223372036854775808)) ∧
      (long (-9223372036854775808)).value? = least.value? ∧
      (¬∃ n : Int, beyond.value? = some (.ofInt n) ∧
        -9223372036854775808 ≤ n ∧ n ≤ 9223372036854775807) ∧
      ∃ text, negativeZero.convert .string = .ok (.string text) ∧
        (Scalar.string text).convert .float = .ok negativeZero := by
  intro least beyond negativeZero
  have hleast : least.convert .long = .ok (long (-9223372036854775808)) := by decide +kernel
  have hbeyond : beyond.convert .long = .error ⟨.double, .long⟩ := by decide +kernel
  have hrange := (convert_exact least).1 .long _ _ rfl (by decide) rfl
  have hoff := (convert_exact beyond).1 .long _ _ rfl (by decide) rfl
  rw [hbeyond] at hoff
  exact ⟨hleast, (hrange.2 _ hleast).2, fun h => by simpa using hoff.1.mpr h,
    (convert_exact negativeZero).2 rfl⟩

end Scalar

end Reshape
