import Mathlib.Data.List.Induction
import Reshape.Proofs.Decimal.Digits
import Reshape.Text.Location

/-!
# Locations count lines and columns

## Main definitions

* `Location.Behind`: the location that follows a text, counted from the text as a whole.

## Main statements

* `Location.behind_after`: the location that is found step by step.
* `Location.describe_injective`: the wording tells locations apart.
-/

namespace Reshape.Location

/-- The location just behind a text: its line is one more than the line feeds, and its column one
more than the characters behind the last of them. -/
structure Behind (l : Location) (text : List Char) : Prop where
  line_eq : l.line = text.count '\n' + 1
  column_eq : l.column = (text.reverse.takeWhile (· ≠ '\n')).length + 1

instance (l : Location) (text : List Char) : Decidable (l.Behind text) :=
  decidable_of_iff (_ ∧ _) ⟨fun h => ⟨h.1, h.2⟩, fun h => ⟨h.1, h.2⟩⟩

theorem behind_after (text : List Char) : (after text).Behind text := by
  induction text using List.reverseRecOn with
  | nil => exact ⟨rfl, rfl⟩
  | append_singleton text c ih =>
    rw [after_append_singleton]
    by_cases hc : c = '\n'
    · constructor <;> simp [step, hc, ih.line_eq]
    · constructor <;> simp [step, hc, ih.line_eq, ih.column_eq]

theorem toList_describe (l : Location) :
    l.describe.toList = "line ".toList ++ Decimal.digits l.line ++
      ',' :: (" column ".toList ++ Decimal.digits l.column) := by
  simp [describe, Decimal.digits]

/-- The line stands in front of the comma. -/
theorem takeWhile_describe (l : Location) :
    l.describe.toList.takeWhile (· ≠ ',') = "line ".toList ++ Decimal.digits l.line := by
  have hword : ∀ c ∈ "line ".toList, decide (c ≠ ',') = true := by simp
  have hdigits : ∀ c ∈ Decimal.digits l.line, decide (c ≠ ',') = true := by
    intro c hc
    have hdigit := Decimal.isDigit_of_mem_digits hc
    rw [decide_eq_true_eq]
    rintro rfl
    cases hdigit
  rw [toList_describe, List.append_assoc, List.takeWhile_append_of_pos hword,
    List.takeWhile_append_of_pos hdigits]
  simp

/-- No two locations have the same wording. -/
theorem describe_injective : Function.Injective describe := by
  have hinjective : Function.Injective Decimal.digits :=
    Function.LeftInverse.injective Decimal.ofDigits_digits
  intro l l' h
  have hline : l.line = l'.line := by
    have hfront := takeWhile_describe l
    rw [h, takeWhile_describe, List.append_cancel_left_eq] at hfront
    exact (hinjective hfront).symm
  have hcolumn : l.column = l'.column := by
    have hdescribe := toList_describe l
    rw [h, toList_describe, hline] at hdescribe
    exact hinjective (by simpa using hdescribe.symm)
  cases l
  cases l'
  simp_all

end Reshape.Location
