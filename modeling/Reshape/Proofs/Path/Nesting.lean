import Reshape.Proofs.Path.Display

/-!
# Predicates inside predicates

The operands of a predicate are texts, and may be texts of paths. Every path has its predicates from
brackets that its text closes. What stands between the brackets of a step has no closing bracket, so
an operand has none, however many brackets it opens, and the steps of its path have no predicates.

## Main definitions

* `Path.Nests`: how deep the predicates of a row of steps are nested.

## Main statements

* `Path.Compiles.closing_notMem`: operands have no closing brackets.
* `Path.Compiles.predicate_eq_none`: without a closing bracket there is no predicate.
* `Path.nests_one_compile`: the predicates of a compiled path have no predicates inside.
-/

namespace Reshape.Path

open Text (mem_of_mem_trim)

/-! ## Closing brackets -/

/-- The operands of a predicate are taken from what stands between the brackets. -/
theorem Brackets.mem_text_of_mem_operand {b : Brackets} {x : Char}
    (hx : x ∈ b.predicate.left.toList ∨ x ∈ b.predicate.right.toList) : x ∈ b.text := by
  simp only [predicate, String.toList_ofList] at hx
  rcases hx with hx | hx
  · exact mem_text_iff.mpr (.inr (.inl (mem_of_mem_trim hx)))
  · exact mem_text_iff.mpr (.inr (.inr (.inr (.inl (mem_of_mem_trim hx)))))

namespace Compiles

variable {cs : List Char} {s : Step}

/-- A step takes its predicate from a pair of brackets. -/
theorem exists_brackets (h : Compiles cs s) {q : Predicate} (hq : q ∈ s.predicate) :
    ∃ w : Writing, w.text = cs ∧ ∃ b ∈ w.brackets, b.predicate = q := by
  cases h with
  | @wellFormed w _ hw =>
    obtain ⟨b, hb, hbq⟩ := Option.map_eq_some_iff.mp hq
    exact ⟨w, hw.1, b, hb, hbq⟩
  | unclosed _ _ => cases hq
  | inert _ => cases hq

/-- The operands of the predicate of a step have no closing brackets. -/
theorem closing_notMem (h : Compiles cs s) (hcs : StepText cs) {q : Predicate}
    (hq : q ∈ s.predicate) : ']' ∉ q.left.toList ∧ ']' ∉ q.right.toList := by
  obtain ⟨w, rfl, b, hb, rfl⟩ := h.exists_brackets hq
  have htext : ']' ∉ b.text := ((stepText_text_iff w).mp hcs).2 b hb
  exact ⟨fun hx => htext (b.mem_text_of_mem_operand (.inl hx)),
    fun hx => htext (b.mem_text_of_mem_operand (.inr hx))⟩

/-- A text without a closing bracket is no step with a predicate. -/
theorem predicate_eq_none (h : Compiles cs s) (hcs : ']' ∉ cs) : s.predicate = none := by
  rcases hs : s.predicate with _ | q
  · rfl
  · obtain ⟨w, rfl, b, hb, -⟩ := h.exists_brackets hs
    have htail : w.tail = '[' :: (b.text ++ [']']) := by
      unfold Writing.tail
      rw [hb]
    exact absurd (by simp [Writing.text, htail]) hcs

end Compiles

/-! ## Compiled paths -/

/-- Each step of a compiled path is compiled from a part of the text. -/
theorem exists_stepText_of_mem_compile {text : String} {s : Step}
    (hs : s ∈ (compile text).steps) :
    ∃ cs, StepText cs ∧ cs ⊆ text.toList ∧ Compiles cs s := by
  obtain ⟨cs, hcs, rfl⟩ := List.mem_map.mp hs
  obtain ⟨hstep, hsub⟩ := stepText_of_mem_splitSteps hcs
  exact ⟨cs, hstep, hsub, compiles_readStep cs⟩

/-- The predicates in a row of steps are nested less than `n` deep below those of the row itself. At
zero there are none. -/
def Nests : Nat → List Step → Prop
  | 0, steps => ∀ s ∈ steps, s.predicate = none
  | n + 1, steps => ∀ s ∈ steps, ∀ q ∈ s.predicate,
      Nests n (compile q.left).steps ∧ Nests n (compile q.right).steps

/-- The path of a text without closing brackets has no predicates. -/
theorem nests_zero_compile {text : String} (h : ']' ∉ text.toList) :
    Nests 0 (compile text).steps := by
  intro s hs
  obtain ⟨cs, -, hsub, hcompiles⟩ := exists_stepText_of_mem_compile hs
  exact hcompiles.predicate_eq_none fun hx => h (hsub hx)

/-- The path of any text has predicates on one level only. -/
theorem nests_one_compile (text : String) : Nests 1 (compile text).steps := by
  intro s hs q hq
  obtain ⟨cs, hstep, -, hcompiles⟩ := exists_stepText_of_mem_compile hs
  obtain ⟨hleft, hright⟩ := hcompiles.closing_notMem hstep hq
  exact ⟨nests_zero_compile hleft, nests_zero_compile hright⟩

end Reshape.Path
