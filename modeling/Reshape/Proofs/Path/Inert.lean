import Reshape.Proofs.Document.Reachable
import Reshape.Proofs.Path.Append
import Reshape.Proofs.Path.Compare

/-!
# Inert steps

A step that is not well formed selects nothing, wherever it stands in a path: a descent does not
take it over, so that a path may always be cut in front of it. Nothing can be compared with what
such a path selects, and a predicate that has it on one of its sides holds only if it is negated.

## Main statements

* `Document.walk_eq_nil_of_mem`: a row of steps.
* `Operator.compare_eq_false_of_nil`: comparison with nothing.
* `Document.select_of_inert`.
-/

namespace Reshape

/-- No operator holds of an empty side. -/
theorem Operator.compare_eq_false_of_nil (op : Operator) {left right : List (Tree Scalar)}
    (h : left = [] ∨ right = []) : op.compare left right = false := by
  have hpair : ∀ test : Tree Scalar → Tree Scalar → Bool, anyPair test left right = false := by
    intro test
    rcases h with rfl | rfl <;> simp [anyPair]
  cases op with
  | keyword r =>
    refine compare_keyword_of_not_single ?_
    rintro ⟨a, b, rfl, rfl⟩
    simp at h
  | symbol r =>
    cases r
    case equal => exact hpair _
    case notEqual => exact hpair _
    all_goals rfl

namespace Document

variable {d : Document} {test : Predicate → NodeId → Bool} {s : Step}

/-- A row of steps with an inert one among them ends nowhere. It may be cut in front of that step,
whatever stands there. -/
theorem walk_eq_nil_of_mem (hs : s.segment = .inert) {steps : List Step} (hmem : s ∈ steps)
    (id : NodeId) : d.walk test steps id = [] := by
  obtain ⟨P, R, rfl⟩ := List.append_of_mem hmem
  have hclean : Path.CleanCut P (s :: R) := by
    rintro - _ ⟨⟩
    exact hs
  rw [walk_append hclean, List.flatMap_eq_nil_iff]
  exact fun m _ => walk_inert hs R m

/-- An operand that is a path with an inert step denotes nothing. -/
theorem resolve_eq_nil_of_mem (hs : s.segment = .inert) {p : Path} (hmem : s ∈ p.steps)
    {text : String} (htext : Operand.ofText text = .path p) (bindings : Option (Tree Scalar))
    (id : NodeId) : d.resolve bindings test id text = [] := by
  simp [resolve, htext, walk_eq_nil_of_mem hs hmem]

/-- A path with an inert step anywhere selects nothing, from whatever node of whatever document and
with whatever variables. A predicate with such a path as one of its operands compares nothing with
something, or something with nothing: its operator does not hold, and it is satisfied just if it is
negated. -/
theorem select_of_inert {p : Path} (hs : s.segment = .inert) (hmem : s ∈ p.steps) (d : Document)
    (bindings : Option (Tree Scalar)) :
    (∀ id, d.select bindings p id = []) ∧
    ∀ q : Predicate, Operand.ofText q.left = .path p ∨ Operand.ofText q.right = .path p →
      ∀ id, (∀ test, q.operator.compare (d.resolve bindings test id q.left)
          (d.resolve bindings test id q.right) = false) ∧
        d.satisfies bindings q id = q.negated := by
  refine ⟨fun id => walk_eq_nil_of_mem hs hmem _, fun q hq id => ?_⟩
  have hfalse : ∀ test, q.operator.compare (d.resolve bindings test id q.left)
      (d.resolve bindings test id q.right) = false := by
    intro test
    refine q.operator.compare_eq_false_of_nil ?_
    exact hq.imp (resolve_eq_nil_of_mem hs hmem · bindings id)
      (resolve_eq_nil_of_mem hs hmem · bindings id)
  exact ⟨hfalse, by simp [satisfies, satisfiesBy, hfalse]⟩

/-- An inert step behind a descent, in a document with members of an empty name. Inequality with the
node itself does not hold, and its negation does. -/
theorem select_of_inert_blankMember :
    let d := ofReading (.object [("", .leaf .null), ("a", .object [("", .leaf (.boolean true))])])
    let p := Path.compile "//a:b"
    let q : Predicate := ⟨true, ".", .symbol .notEqual, "//a:b"⟩
    d.WellFormed ∧ Step.inert.segment = .inert ∧ Step.inert ∈ p.steps ∧
      p.steps = [⟨.self, .descend, none⟩, .inert] ∧ Operand.ofText q.right = .path p ∧
      d.select none p 0 = [] ∧
      q.operator.compare (d.resolve none (fun _ _ => true) 0 q.left)
        (d.resolve none (fun _ _ => true) 0 q.right) = false ∧
      d.satisfies none q 0 = true := by
  intro d p q
  have hd : d.WellFormed := (rooted_ofReading _).wellFormed
  have hmem : Step.inert ∈ p.steps := by decide +kernel
  have hq : Operand.ofText q.right = .path p := by decide +kernel
  obtain ⟨hselect, hpredicate⟩ := select_of_inert rfl hmem d none
  obtain ⟨hfalse, hsatisfies⟩ := hpredicate q (.inr hq) 0
  exact ⟨hd, rfl, hmem, by decide +kernel, hq, hselect 0, hfalse _, hsatisfies⟩

end Document

end Reshape
