import Reshape.Path.Compile

/-!
# The grammar of steps

Steps are written with an optional axis, a segment and an optional condition in brackets. A writing
is its parts, so that it is within the grammar by its type, and it determines its text. The text may
have several writings, which differ in where the operator of the condition is; one of them is taken.

## Main definitions

* `Path.Comparison`, `Path.Brackets`, `Path.Writing`: parts that make up a text.
* `Path.Comparison.Taken`, `Path.Brackets.Taken`, `Path.Writing.Taken`: what counts among the
  writings of a text.
* `Path.WellFormed`, `Path.Compiles`: what a text is as a step, and the step it stands for.

## Main statements

* `Path.Writing.Taken.unique`: one writing is taken.
* `Path.Compiles.unique`: a text stands for one step.
* `Path.Compiles.segment_cases`: only the inert step does not say what its segment is.
-/

namespace Reshape

/-- An operator as it stands between two operands: a word has a space on each side. -/
def Operator.written : Operator → List Char
  | keyword r => [' ', r.word.1, r.word.2, ' ']
  | symbol r => r.sign

/-- The segment that a text describes has that text. -/
theorem Segment.text_ofText (text : String) : (ofText text).text = text := by
  unfold ofText
  split <;> rfl

namespace Path

open Text (trim)

/-! ## Writings -/

/-- The text of an axis or of a segment. -/
@[ext] structure Part where
  chars : List Char
  plain : ∀ c ∈ chars, c ≠ '[' ∧ c ≠ ']' ∧ c ≠ ':'

/-- The text of an operand. -/
@[ext] structure Operand where
  chars : List Char
  ne_nil : chars ≠ []
  plain : ∀ c ∈ chars, isReserved c = false

/-- An operator between two operands. -/
@[ext] structure Comparison where
  left : Operand
  operator : Operator
  right : Operand

/-- What stands between brackets: a comparison, perhaps inside `not( )`, of which either half may be
missing. -/
@[ext] structure Brackets where
  opened : Bool
  comparison : Comparison
  closed : Bool

/-- The parts of a step. -/
@[ext] structure Writing where
  axis : Option Part
  segment : Part
  brackets : Option Brackets

/-- The text of a comparison. -/
def Comparison.text (c : Comparison) : List Char :=
  c.left.chars ++ (c.operator.written ++ c.right.chars)

/-- The text between the brackets. -/
def Brackets.text (b : Brackets) : List Char :=
  (if b.opened then "not(".toList else []) ++
    (b.comparison.text ++ if b.closed then [')'] else [])

/-- What is opened is closed. -/
def Brackets.Balanced (b : Brackets) : Prop := b.opened = true → b.closed = true

namespace Writing

/-- The text in front of the brackets. -/
def head (w : Writing) : List Char :=
  match w.axis with
  | some axis => axis.chars ++ ':' :: ':' :: w.segment.chars
  | none => w.segment.chars

/-- The text of the brackets, if there are any. -/
def tail (w : Writing) : List Char :=
  match w.brackets with
  | some b => '[' :: (b.text ++ [']'])
  | none => []

/-- The text of a step. -/
def text (w : Writing) : List Char := w.head ++ w.tail

/-- What is opened is closed. -/
def Balanced (w : Writing) : Prop := ∀ b ∈ w.brackets, b.Balanced

end Writing

/-! ## The step of a writing -/

/-- The predicate of trimmed operands. -/
def Brackets.predicate (b : Brackets) : Predicate :=
  ⟨b.opened, .ofList (trim b.comparison.left.chars), b.comparison.operator,
    .ofList (trim b.comparison.right.chars)⟩

/-- The step of trimmed parts. -/
def Writing.step (w : Writing) : Step where
  axis := .ofName (.ofList (trim ((w.axis.map Part.chars).getD [])))
  segment := .ofText (.ofList (trim w.segment.chars))
  predicate := w.brackets.map Brackets.predicate

/-! ## Choice -/

/-- A sign goes before words, and of two words the one with the longer operand on its left. -/
def Comparison.Beats (c c' : Comparison) : Prop :=
  c'.operator.isKeyword = true ∧
    (c.operator.isKeyword = true → c'.left.chars.length < c.left.chars.length)

/-- The comparison that counts among those with this text. -/
def Comparison.Taken (c : Comparison) (cs : List Char) : Prop :=
  c.text = cs ∧ ∀ c' : Comparison, c'.text = cs → c' = c ∨ c.Beats c'

/-- What counts among what stands between brackets with this text: anything else has a comparison
that is beaten. -/
def Brackets.Taken (b : Brackets) (cs : List Char) : Prop :=
  b.text = cs ∧ ∀ b' : Brackets, b'.text = cs → b' = b ∨ b.comparison.Beats b'.comparison

/-- The writing that counts among those with this text: any other one has a comparison that is
beaten. -/
def Writing.Taken (w : Writing) (cs : List Char) : Prop :=
  w.text = cs ∧ ∀ w' : Writing, w'.text = cs →
    w' = w ∨ ∃ b ∈ w.brackets, ∃ b' ∈ w'.brackets, b.comparison.Beats b'.comparison

/-- The text of a step within the grammar. -/
def WellFormed (cs : List Char) : Prop := ∃ w : Writing, w.text = cs ∧ w.Balanced

/-- What a text stands for. If its only fault is that `not(` is not closed, the predicate is
dropped; with any other fault, the step is inert. -/
inductive Compiles (cs : List Char) : Step → Prop
  | wellFormed {w : Writing} : WellFormed cs → w.Taken cs → Compiles cs w.step
  | unclosed {w : Writing} : ¬WellFormed cs → w.Taken cs →
      Compiles cs { w.step with predicate := none }
  | inert : (∀ w : Writing, w.text ≠ cs) → Compiles cs .inert

/-! ## What a text determines -/

theorem Comparison.Beats.asymm {c c' : Comparison} (h : c.Beats c') : ¬c'.Beats c := by
  intro h'
  have := h.2 h'.1
  have := h'.2 h.1
  omega

/-- Only one writing is taken. -/
theorem Writing.Taken.unique {w w' : Writing} {cs : List Char} (h : w.Taken cs) (h' : w'.Taken cs) :
    w = w' := by
  rcases h'.2 w h.1 with rfl | ⟨b, hb, b', hb', hbeats⟩
  · rfl
  · rcases h.2 w' h'.1 with rfl | ⟨b₁, hb₁, b₁', hb₁', hbeats'⟩
    · rfl
    · cases hb.symm.trans hb₁'
      cases hb'.symm.trans hb₁
      exact absurd hbeats' hbeats.asymm

/-- A text stands for one step. -/
theorem Compiles.unique {cs : List Char} {s s' : Step} (h : Compiles cs s) (h' : Compiles cs s') :
    s = s' := by
  cases h with
  | wellFormed hwell hw =>
    cases h' with
    | wellFormed _ hw' => rw [hw.unique hw']
    | unclosed hnot _ => exact absurd hwell hnot
    | inert hnone => exact absurd hw.1 (hnone _)
  | unclosed hnot hw =>
    cases h' with
    | wellFormed hwell _ => exact absurd hwell hnot
    | unclosed _ hw' => rw [hw.unique hw']
    | inert hnone => exact absurd hw.1 (hnone _)
  | inert hnone =>
    cases h' with
    | wellFormed _ hw' => exact absurd hw'.1 (hnone _)
    | unclosed _ hw' => exact absurd hw'.1 (hnone _)
    | inert _ => rfl

/-- The segment of a step is the one that its text describes. Only the inert step, which no well
formed text stands for, shows the text of another segment. -/
theorem Compiles.segment_cases {cs : List Char} {s : Step} (h : Compiles cs s) :
    s.segment = .ofText s.segment.text ∨ s = .inert ∧ ¬WellFormed cs := by
  cases h with
  | wellFormed _ _ => exact .inl (by simp [Writing.step, Segment.text_ofText])
  | unclosed _ _ => exact .inl (by simp [Writing.step, Segment.text_ofText])
  | inert hnone => exact .inr ⟨rfl, fun ⟨w, hw, _⟩ => hnone w hw⟩

end Path

end Reshape
