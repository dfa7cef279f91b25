import Mathlib.Data.List.TakeWhile
import Reshape.Proofs.Decimal.Digits
import Reshape.Proofs.Path.Split
import Reshape.Proofs.Text.Blank
import Reshape.Path.Select
import Reshape.Template.Pattern

/-!
# Keys as steps

A key is written as a step that takes the child of that key, unless its text means something else to
the readers of paths.

## Main definitions

* `Path.Writable`: a key that is read as a name.
* `Path.keyStep`: the step of a key.

## Main statements

* `Path.readStep_of_plain`: a step text without axis and brackets.
* `Path.compileStrict_displayAddress`: the path of a row of keys.
* `readIndex?_digits`: the keys of elements are read as positions.
-/

namespace Reshape

/-! ## Positions -/

/-- A text that begins with a digit has no sign in front. -/
theorem dropSign_cons_of_isDigit {c : Char} (h : c.isDigit = true) (cs : List Char) :
    dropSign (c :: cs) = c :: cs := by
  unfold dropSign
  split <;> simp_all [Char.isDigit]

theorem dropSign_digits (i : Nat) : dropSign (Decimal.digits i) = Decimal.digits i := by
  obtain ⟨c, cs, hc⟩ := List.exists_cons_of_ne_nil (Decimal.digits_ne_nil i)
  have hdigit : c.isDigit = true := Decimal.isDigit_of_mem_digits (hc ▸ List.mem_cons_self)
  rw [hc, dropSign_cons_of_isDigit hdigit]

/-- The text of a position is a position. -/
theorem isInteger_digits (i : Nat) : isInteger (Decimal.digits i) = true := by
  have hall : ∀ c ∈ Decimal.digits i, Text.isDecimalDigit c = true := fun c hc =>
    Text.isDecimalDigit_of_isDigit (Decimal.isDigit_of_mem_digits hc)
  simpa [isInteger, isDigits, dropSign_digits, Decimal.digits_ne_nil] using hall

theorem readIndex?_digits (i : Nat) : readIndex? (Decimal.digits i) = some i := by
  have hall : ∀ c ∈ Decimal.digits i, c.isDigit = true := fun c => Decimal.isDigit_of_mem_digits
  unfold readIndex?
  split
  · next h => simp [h] at hall
  · simpa [Decimal.digits_ne_nil, Decimal.ofDigits_digits] using hall

namespace Path

open Text (trim isBlank trim_eq_self)

/-! ## Names -/

/-- A key that stands for itself as the text of a step: it has no blanks at its ends, no character
that ends a step or an axis, and no meaning of its own. -/
structure Writable (key : String) : Prop where
  ne_empty : key ≠ ""
  head_not_blank : ∀ c ∈ key.toList.head?, isBlank c = false
  last_not_blank : ∀ c ∈ key.toList.getLast?, isBlank c = false
  plain : ∀ c ∈ key.toList, c ≠ '/' ∧ c ≠ '[' ∧ c ≠ ']' ∧ c ≠ ':'
  ne_special : key ≠ "." ∧ key ≠ ".." ∧ key ≠ "*"

/-- The step that takes the child of a key. -/
def keyStep (key : String) : Step := ⟨.self, .name key, none⟩

/-- A text without brackets and colons is a step of the node itself with that segment. -/
theorem readStep_of_plain {cs : List Char} (h : ∀ c ∈ cs, c ≠ '[' ∧ c ≠ ']' ∧ c ≠ ':') :
    readStep cs = ⟨⟨.self, .ofText (.ofList (trim cs)), none⟩, true⟩ := by
  have hopen : ∀ c ∈ cs, decide (c ≠ '[') = true := by grind
  have hcolon : ∀ c ∈ cs, decide (c ≠ ':') = true := by grind
  have hhead : readHead? cs = some (.self, .ofText (.ofList (trim cs))) := by
    have hclose : cs.all (· ≠ ']') = true := by grind
    rw [readHead?, List.takeWhile_eq_self_iff.mpr hcolon, List.dropWhile_eq_nil_iff.mpr hcolon]
    exact if_pos ⟨rfl, hclose⟩
  rw [readStep, List.takeWhile_eq_self_iff.mpr hopen, List.dropWhile_eq_nil_iff.mpr hopen, hhead]

theorem Segment.ofText_eq_name {text : String}
    (h : text ≠ "" ∧ text ≠ "." ∧ text ≠ ".." ∧ text ≠ "*") : Segment.ofText text = .name text := by
  unfold Segment.ofText
  grind

namespace Writable

variable {key : String}

theorem readStep_eq (h : Writable key) : readStep key.toList = ⟨keyStep key, true⟩ := by
  rw [readStep_of_plain fun c hc => (h.plain c hc).2,
    trim_eq_self h.head_not_blank h.last_not_blank, String.ofList_toList,
    Segment.ofText_eq_name ⟨h.ne_empty, h.ne_special⟩, keyStep]

theorem stepText (h : Writable key) : StepText key.toList :=
  .plain fun c hc => by simp [isPlain, h.plain c hc]

end Writable

theorem isBlank_of_isDigit {c : Char} (h : c.isDigit = true) : isBlank c = false := by
  simp only [Char.isDigit, Bool.and_eq_true, decide_eq_true_eq, ge_iff_le,
    UInt32.le_iff_toNat_le] at h
  have hc : 48 ≤ c.toNat ∧ c.toNat ≤ 57 := h
  simp only [isBlank]
  grind

/-- The text of a position stands for itself. -/
theorem writable_indexText (i : Nat) : Writable (Document.indexText i) := by
  have hdigit : ∀ c ∈ (Document.indexText i).toList, c.isDigit = true := by
    simpa [Document.indexText] using fun c => Decimal.isDigit_of_mem_digits
  have hne : (Document.indexText i).toList ≠ [] := by
    simpa [Document.indexText] using Decimal.digits_ne_nil i
  generalize Document.indexText i = key at hdigit hne
  refine ⟨?_, fun c hc => ?_, fun c hc => ?_, fun c hc => ?_, ?_, ?_, ?_⟩
  · rintro rfl
    exact hne rfl
  · exact isBlank_of_isDigit (hdigit c (List.mem_of_mem_head? hc))
  · exact isBlank_of_isDigit (hdigit c (List.mem_of_mem_getLast? hc))
  · have := hdigit c hc
    refine ⟨?_, ?_, ?_, ?_⟩ <;> rintro rfl <;> revert this <;> decide
  all_goals
    rintro rfl
    simp at hdigit

/-! ## Addresses -/

theorem toList_displayAddress (keys : List String) :
    (displayAddress keys).toList = '/' :: ['/'].intercalate (keys.map String.toList) := by
  simp [displayAddress, String.toList_intercalate]

/-- An address of keys that stand for themselves is the path of their steps. -/
theorem compileStrict_displayAddress {keys : List String} (hne : keys ≠ [])
    (h : ∀ key ∈ keys, Writable key) :
    compileStrict (displayAddress keys) = .ok ⟨true, keys.map keyStep⟩ := by
  have hsplit : splitSteps (displayAddress keys).toList = keys.map String.toList := by
    rw [toList_displayAddress]
    refine splitSteps_intercalate (by simpa using hne) ?_
    simpa using fun key hkey => (h key hkey).stepText
  have hread : ∀ key ∈ keys, readStep key.toList = ⟨keyStep key, true⟩ :=
    fun key hkey => (h key hkey).readStep_eq
  have hfind : ((splitSteps (displayAddress keys).toList).find? fun s => !(readStep s).wellFormed) =
      none := by
    simp only [hsplit, List.find?_eq_none, List.forall_mem_map]
    intro key hkey
    simp [hread key hkey]
  have hsteps : (compile (displayAddress keys)).steps = keys.map keyStep := by
    simp only [compile, compileChars, hsplit, List.map_map]
    exact List.map_congr_left fun key hkey => by simp [hread key hkey]
  have habsolute : (compile (displayAddress keys)).absolute = true := by
    simp [compile, compileChars, toList_displayAddress]
  simp only [compileStrict, hfind, ← hsteps, ← habsolute]

end Path

end Reshape
