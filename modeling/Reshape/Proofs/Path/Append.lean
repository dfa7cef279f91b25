import Mathlib.Data.List.Basic
import Reshape.Path.Select

/-!
# Rows of steps one after the other

Following a path is following its first steps and, from every node found there, the others. The only
steps that cannot be told apart are a descent and the one behind it, which the descent takes over: a
path must not be cut between the two.

## Main definitions

* `Path.endsOpen`: a row of steps ends with a descent that would take over a further step.
* `Path.CleanCut`: a path may be cut between two rows of steps.

## Main statements

* `Document.walk_cons`, `Document.walk_descend`: one step, and a descent with the step behind it.
* `Document.walk_append`, `Document.select_append`: two rows of steps.
-/

namespace Reshape

namespace Path

/-- Whether the row ends with a descent that would take over a further step. A descent behind a
descent is taken over itself and asks for nothing more. -/
def endsOpen : List Step → Bool
  | [] => false
  | [s] => s.segment = .descend
  | s :: next :: rest => if s.segment = .descend then endsOpen rest else endsOpen (next :: rest)

/-- No descent at the end of the first row loses the step that it takes over to the second. An inert
step selects nothing wherever it stands, so that it cannot be lost. -/
def CleanCut (P Q : List Step) : Prop := endsOpen P = true → ∀ s ∈ Q.head?, s.segment = .inert

instance (P Q : List Step) : Decidable (CleanCut P Q) := inferInstanceAs (Decidable (_ → _))

/-- Without descents a path may be cut anywhere. -/
theorem cleanCut_of_forall_ne_descend {P : List Step} (h : ∀ s ∈ P, s.segment ≠ .descend)
    (Q : List Step) : CleanCut P Q := by
  have hclosed : endsOpen P = false := by
    fun_induction endsOpen P <;> simp_all
  simp [CleanCut, hclosed]

end Path

namespace Document

variable {d : Document} {test : Predicate → NodeId → Bool}

/-! ## Single steps -/

@[simp] theorem walk_nil (id : NodeId) : d.walk test [] id = [id] := rfl

/-- Without steps every node is its own end. -/
@[simp] theorem flatMap_walk_nil (ids : List NodeId) : ids.flatMap (d.walk test []) = ids := by
  induction ids with
  | nil => rfl
  | cons id ids ih => simp [ih]

/-- A step that is no descent takes its nodes, and the other steps go on from each of them. -/
theorem walk_cons {s : Step} (hs : s.segment ≠ .descend) (rest : List Step) (id : NodeId) :
    d.walk test (s :: rest) id =
      ((d.candidates s id).filter (passes test s.predicate)).flatMap (d.walk test rest) := by
  cases rest with
  | nil => simp [walk]
  | cons next rest => simp [walk, hs]

/-- A descent takes over the step behind it, unless that is inert. -/
theorem walk_descend {s : Step} (hs : s.segment = .descend) (next : Step) (rest : List Step)
    (id : NodeId) :
    d.walk test (s :: next :: rest) id =
      if next.segment = .inert then []
      else
        ((d.searchNamed id next.segment.text).filter (passes test next.predicate)).flatMap
          (d.walk test rest) := by
  simp [walk, hs]

theorem walk_inert {s : Step} (hs : s.segment = .inert) (rest : List Step) (id : NodeId) :
    d.walk test (s :: rest) id = [] := by
  rw [walk_cons (by simp [hs])]
  simp [candidates, hs]

/-! ## Rows of steps -/

/-- Where a path may be cut, the second row of steps goes on from every end of the first. -/
theorem walk_append {P Q : List Step} (h : Path.CleanCut P Q) (id : NodeId) :
    d.walk test (P ++ Q) id = (d.walk test P id).flatMap (d.walk test Q) := by
  fun_induction Path.endsOpen P generalizing id with
  | case1 => simp
  | case2 s =>
    by_cases hs : s.segment = .descend
    · -- The descent is the last step, so that a step behind it is inert.
      rcases Q with _ | ⟨q, Q⟩
      · simp
      · have hq : q.segment = .inert := h (by simp [Path.endsOpen, hs]) q rfl
        simp [walk_descend hs, hq, walk_inert hq]
    · simp [walk_cons hs]
  | case3 s next rest hs ih =>
    have ih := ih (by simpa [Path.CleanCut, Path.endsOpen, hs] using h)
    simp only [List.cons_append, walk_descend hs]
    split
    · rfl
    · rw [List.flatMap_assoc]
      exact List.flatMap_congr fun m _ => ih m
  | case4 s next rest hs ih =>
    have ih := ih (by simpa [Path.CleanCut, Path.endsOpen, hs] using h)
    rw [List.cons_append, walk_cons hs, walk_cons hs, List.flatMap_assoc]
    exact List.flatMap_congr fun m _ => ih m

/-- Evaluation is compositional: what a path selects is what its last steps select from each node
that its first steps select, in the same order and with the same repetitions. -/
theorem select_append {P Q : List Step} (h : Path.CleanCut P Q) (d : Document)
    (bindings : Option (Tree Scalar)) (absolute : Bool) (id : NodeId) :
    d.select bindings ⟨absolute, P ++ Q⟩ id =
      (d.select bindings ⟨absolute, P⟩ id).flatMap (d.select bindings ⟨false, Q⟩) :=
  walk_append h _

/-- Every ancestor of every member `b`, the common one twice. -/
theorem select_append_ancestors :
    let d := ofReading (.array [.object [("b", .leaf .null)], .object [("b", .leaf .null)]])
    let P : List Step := [⟨.self, .descend, none⟩, ⟨.self, .name "b", none⟩]
    let Q : List Step := [⟨.ancestor, .current, none⟩]
    Path.CleanCut P Q ∧ d.select none ⟨true, P ++ Q⟩ 0 = [1, 0, 3, 0] ∧
      d.select none ⟨true, P ++ Q⟩ 0 =
        (d.select none ⟨true, P⟩ 0).flatMap (d.select none ⟨false, Q⟩) :=
  ⟨by decide, by decide, select_append (by decide) _ none true 0⟩

-- Between a descent and the step that it takes over a path must not be cut.
example :
    let d := ofReading (.array [.object [("b", .leaf .null)]])
    let P : List Step := [⟨.self, .descend, none⟩]
    let Q : List Step := [⟨.self, .name "b", none⟩]
    ¬Path.CleanCut P Q ∧ d.select none ⟨true, P ++ Q⟩ 0 = [2] ∧
      (d.select none ⟨true, P⟩ 0).flatMap (d.select none ⟨false, Q⟩) = [] := by decide

end Document

end Reshape
