import Mathlib.Data.List.DropRight
import Reshape.Text.Blank

/-!
# Trimming

What trimming takes off a text are the blanks at its two ends, and nothing else.

## Main definitions

* `Text.OnlySpaces`: a text without any blanks but spaces.

## Main statements

* `Text.exists_trim`: a text and what is left of it.
* `Text.trim_eq_self`, `Text.trim_trim`: texts from which nothing is taken off.
* `Text.OnlySpaces.space_cons_trim_infix`: how a text in front of which stands a space is trimmed.
-/

namespace Reshape.Text

/-- The only blanks in a text are spaces. -/
def OnlySpaces (cs : List Char) : Prop := ∀ c ∈ cs, isBlank c = true → c = ' '

instance (cs : List Char) : Decidable (OnlySpaces cs) := List.decidableBAll _ cs

/-- A text is what is left of it between blanks. -/
theorem exists_trim (cs : List Char) : ∃ before after, cs = before ++ (trim cs ++ after) ∧
    (∀ c ∈ before, isBlank c = true) ∧ ∀ c ∈ after, isBlank c = true := by
  refine ⟨cs.takeWhile isBlank, (cs.dropWhile isBlank).rtakeWhile isBlank, ?_, ?_, ?_⟩
  · have happend : trim cs ++ (cs.dropWhile isBlank).rtakeWhile isBlank = cs.dropWhile isBlank :=
      List.rdropWhile_append_rtakeWhile
    rw [happend, List.takeWhile_append_dropWhile]
  · exact fun c => List.mem_takeWhile_imp
  · exact fun c => List.mem_rtakeWhile_imp

theorem mem_of_mem_trim {c : Char} {cs : List Char} (hc : c ∈ trim cs) : c ∈ cs := by
  obtain ⟨before, after, hcs, -, -⟩ := exists_trim cs
  rw [hcs]
  exact List.mem_append_right _ (List.mem_append_left _ hc)

/-- Only blanks are trimmed. -/
theorem mem_trim {c : Char} {cs : List Char} (hc : c ∈ cs) (hblank : isBlank c = false) :
    c ∈ trim cs := by
  obtain ⟨before, after, hcs, hbefore, hafter⟩ := exists_trim cs
  rw [hcs, List.mem_append, List.mem_append] at hc
  rcases hc with hc | hc | hc
  · simp [hbefore c hc] at hblank
  · exact hc
  · simp [hafter c hc] at hblank

theorem trim_eq_self {cs : List Char} (hhead : ∀ c ∈ cs.head?, isBlank c = false)
    (hlast : ∀ c ∈ cs.getLast?, isBlank c = false) : trim cs = cs := by
  have hdrop : cs.dropWhile isBlank = cs := by cases cs <;> simp_all
  have hreverse : cs.reverse.dropWhile isBlank = cs.reverse := by
    rw [List.getLast?_eq_head?_reverse] at hlast
    cases h : cs.reverse <;> simp_all
  rw [trim, hdrop, trimEnd, hreverse, List.reverse_reverse]

/-- What is left of a text has no blanks at its ends. -/
theorem trim_trim (cs : List Char) : trim (trim cs) = trim cs := by
  refine trim_eq_self (fun c hc => ?_) fun c hc => ?_
  · have hprefix : trim cs <+: cs.dropWhile isBlank := List.rdropWhile_prefix isBlank _
    have hhead := List.head?_dropWhile_not isBlank cs
    obtain ⟨rest, hrest⟩ := List.head?_eq_some_iff.mp hc
    obtain ⟨after, hafter⟩ := hprefix
    rw [← hafter, hrest] at hhead
    simpa using hhead
  · rw [trim, trimEnd, List.getLast?_reverse] at hc
    have hlast := List.head?_dropWhile_not isBlank (cs.dropWhile isBlank).reverse
    rw [Option.mem_def.mp hc] at hlast
    simpa using hlast

theorem OnlySpaces.of_subset {cs ds : List Char} (h : OnlySpaces ds) (hsub : cs ⊆ ds) :
    OnlySpaces cs := fun c hc => h c (hsub hc)

/-- A space in front of a text may be moved over the spaces that are trimmed. -/
theorem OnlySpaces.space_cons_trim_infix {cs : List Char} (h : OnlySpaces cs) :
    ' ' :: trim cs <:+: ' ' :: cs := by
  obtain ⟨before, after, hcs, hbefore, -⟩ := exists_trim cs
  have hreplicate : before = List.replicate before.length ' ' := by
    refine List.eq_replicate_of_mem fun c hc => h c ?_ (hbefore c hc)
    rw [hcs]
    exact List.mem_append_left _ hc
  have hspaces : ' ' :: before = before ++ [' '] := by
    rw [hreplicate, ← List.replicate_succ, List.replicate_succ']
  refine ⟨before, after, ?_⟩
  calc before ++ ' ' :: trim cs ++ after = before ++ [' '] ++ (trim cs ++ after) := by simp
    _ = ' ' :: cs := by rw [← hspaces, List.cons_append, ← hcs]

end Reshape.Text
