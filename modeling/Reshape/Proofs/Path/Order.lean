import Reshape.Proofs.Path.Axis
import Reshape.Proofs.Path.Filter

/-!
# The order of selections

A descent finds the members of a name in pre-order, as the step along the axis of everything below
a node does. A step that only goes down takes nodes whose pre-orders are parts of that of the node
where it is taken, one behind the other; so a path of such steps selects a part of the pre-order of
the document, in its order and without repetitions.

## Main definitions

* `Step.goesDown`: the steps that only go down.

## Main statements

* `Document.select_descend_name`: a descent as a step along an axis.
* `Rooted.candidates_sublist`, `Rooted.walk_sublist`: one step down, and a row of them.
* `Document.select_of_goesDown`.
-/

namespace Reshape

/-- Whether a step only goes down: to all children, or from the node or its children by a point, a
name or a position. -/
def Step.goesDown (s : Step) : Bool :=
  match s.segment with
  | .wildcard => true
  | .current | .name _ => s.axis = .self || s.axis = .child
  | .parent | .descend | .inert => false

namespace Document

variable {d : Document} {test : Predicate → NodeId → Bool}

namespace Rooted

variable (h : d.Rooted)
include h

/-! ## Descents -/

/-- Members of a name are found in the same order, unless the name is read as a position. -/
theorem candidates_descendantOrSelf {k : String} (hk : isInteger k.toList = false)
    (q : Option Predicate) (id : NodeId) :
    d.candidates ⟨.descendantOrSelf, .name k, q⟩ id = d.searchNamed id k := by
  have hchild : ∀ n, d.namedChild? n k = d.childByName? n k := fun n => by simp [namedChild?, hk]
  simp only [candidates, axis, h.cons_descendants, searchNamed, hchild]

/-- A descent with the step that it takes over is a step along the axis of everything below a
node. -/
theorem walk_descend_name {s : Step} (hs : s.segment = .descend) {k : String}
    (hk : isInteger k.toList = false) (a : Axis) (q : Option Predicate) (R : List Step)
    (id : NodeId) :
    d.walk test (s :: ⟨a, .name k, q⟩ :: R) id =
      d.walk test (⟨.descendantOrSelf, .name k, q⟩ :: R) id := by
  rw [walk_descend hs, walk_cons (by simp), h.candidates_descendantOrSelf hk, if_neg (by simp)]
  rfl

/-! ## Steps down -/

/-- The pre-orders of the children are part of that of their container. -/
theorem flatMap_children_sublist (id : NodeId) :
    ((d.children id).flatMap d.preorder).Sublist (d.preorder id) := by
  rw [h.preorder_eq id]
  exact List.sublist_cons_self _ _

/-- Where each node gives way to one of its children, pre-orders become parts of what they were. -/
theorem flatMap_namedChild?_sublist (text : String) (ids : List NodeId) :
    ((ids.filterMap (d.namedChild? · text)).flatMap d.preorder).Sublist
      (ids.flatMap d.preorder) := by
  induction ids with
  | nil => exact List.Sublist.refl _
  | cons id ids ih =>
    rw [List.filterMap_cons, List.flatMap_cons]
    split
    · exact ih.trans (List.sublist_append_right _ _)
    · next c hc =>
      rw [List.flatMap_cons]
      exact (h.preorder_sublist_of_mem_children (mem_children_of_namedChild? hc)).append ih

/-- The nodes that a step down takes have pre-orders that are parts of that of the node where it is
taken, one behind the other. -/
theorem candidates_sublist {s : Step} (hs : s.goesDown = true) (id : NodeId) :
    ((d.candidates s id).flatMap d.preorder).Sublist (d.preorder id) := by
  have haxis : s.axis = .self ∨ s.axis = .child →
      ((d.axis id s.axis).flatMap d.preorder).Sublist (d.preorder id) := by
    rintro (ha | ha) <;> rw [ha, axis]
    · simp
    · exact h.flatMap_children_sublist id
  unfold Step.goesDown at hs
  unfold candidates
  cases hsegment : s.segment <;> rw [hsegment] at hs
  case wildcard => exact h.flatMap_children_sublist id
  case current => exact haxis (by simpa using hs)
  case name text =>
    exact (h.flatMap_namedChild?_sublist text _).trans (haxis (by simpa using hs))
  all_goals cases hs

/-- A row of steps down selects a part of the pre-order of the node where it is taken. -/
theorem walk_sublist {steps : List Step} (hsteps : ∀ s ∈ steps, s.goesDown = true) (id : NodeId) :
    (d.walk test steps id).Sublist (d.preorder id) := by
  induction steps generalizing id with
  | nil => exact List.singleton_sublist.mpr (h.self_mem_preorder id)
  | cons s rest ih =>
    have hs := hsteps s List.mem_cons_self
    have hrest := fun m => ih (fun s' hs' => hsteps s' (List.mem_cons_of_mem _ hs')) m
    have hdescend : s.segment ≠ .descend := fun hsegment => by simp [Step.goesDown, hsegment] at hs
    rw [walk_cons hdescend]
    refine (List.Sublist.flatMap_right _ fun m _ => hrest m).trans ?_
    exact (List.filter_sublist.flatMap _).trans (h.candidates_sublist hs id)

theorem preorder_origin_sublist (p : Path) (id : NodeId) :
    (d.preorder (d.origin p id)).Sublist (d.preorder (d.top id)) := by
  unfold origin
  split
  · exact List.Sublist.refl _
  · exact h.preorder_sublist (h.mem_preorder_top id)

end Rooted

/-- A descent and the step behind it, which takes members of a name, select what one step along the
axis of everything below a node selects, in the same order and with the same repetitions. A name
that is read as a position is excepted: as a member, a descent finds it all the same. -/
theorem select_descend_name (h : d.WellFormed) {s : Step} (hs : s.segment = .descend) {k : String}
    (hk : isInteger k.toList = false) (bindings : Option (Tree Scalar)) (absolute : Bool) (a : Axis)
    (q : Option Predicate) (R : List Step) (id : NodeId) :
    d.select bindings ⟨absolute, s :: ⟨a, .name k, q⟩ :: R⟩ id =
      d.select bindings ⟨absolute, ⟨.descendantOrSelf, .name k, q⟩ :: R⟩ id :=
  h.rooted.walk_descend_name hs hk a q R _

/-- The ancestors of all members `y` that are greater than one, the common ones twice. -/
theorem select_descend_name_ancestors :
    let d := ofReading (.object [
      ("x", .object [("y", .leaf (.integer 1)), ("z", .object [("y", .leaf (.integer 2))])]),
      ("w", .array [.object [("y", .leaf (.integer 3))]])])
    let q : Predicate := ⟨false, ".", .keyword .greater, "1"⟩
    let R : List Step := [⟨.ancestor, .current, none⟩]
    let descent : Path := ⟨true, ⟨.self, .descend, none⟩ :: ⟨.child, .name "y", some q⟩ :: R⟩
    d.WellFormed ∧ isInteger "y".toList = false ∧
      Path.compile "//child::y[. gt 1]/ancestor::." = descent ∧
      d.select none descent 0 = [3, 1, 0, 6, 5, 0] ∧
      d.select none descent 0 =
        d.select none ⟨true, ⟨.descendantOrSelf, .name "y", some q⟩ :: R⟩ 0 := by
  intro d q R descent
  have hd : d.WellFormed := (rooted_ofReading _).wellFormed
  have hk : isInteger "y".toList = false := by decide
  exact ⟨hd, hk, by decide +kernel, by decide +kernel,
    select_descend_name hd rfl hk none true .child (some q) R 0⟩

/-- Places in a list without repetitions increase along its parts. -/
theorem pairwise_idxOf_lt {order ids : List NodeId} (hnodup : order.Nodup)
    (hsub : ids.Sublist order) : ids.Pairwise fun m m' => order.idxOf m < order.idxOf m' := by
  refine List.Pairwise.sublist hsub (List.pairwise_iff_getElem.mpr fun i j hi hj hij => ?_)
  rwa [hnodup.idxOf_getElem, hnodup.idxOf_getElem]

/-- A path of steps that only go down selects a part of the pre-order of the whole tree. The nodes
come in the order of their places there, and none of them comes twice. -/
theorem select_of_goesDown (h : d.WellFormed) {p : Path} (hp : ∀ s ∈ p.steps, s.goesDown = true)
    (bindings : Option (Tree Scalar)) (id : NodeId) :
    let order := d.preorder (d.top id)
    let selected := d.select bindings p id
    selected.Sublist order ∧
      selected.Pairwise (fun m m' => order.idxOf m < order.idxOf m') ∧ selected.Nodup := by
  intro order selected
  have hnodup : order.Nodup := h.rooted.nodup_preorder _
  have hsub : selected.Sublist order :=
    (h.rooted.walk_sublist hp _).trans (h.rooted.preorder_origin_sublist p id)
  exact ⟨hsub, pairwise_idxOf_lt hnodup hsub, hnodup.sublist hsub⟩

/-- The grandchildren of the root that are not less than two, in a document whose containers have
greater numbers than their children. -/
theorem select_of_goesDown_children :
    let d := ofTree (.object [("a", .array [.leaf (.integer 1), .leaf (.integer 2)]),
      ("b", .object [("x", .leaf (.integer 3)), ("y", .leaf .null)])])
    let p := Path.compile "*/child::.[. ge 2]"
    let order := d.preorder (d.top 6)
    let selected := d.select none p 6
    d.WellFormed ∧ (∀ s ∈ p.steps, s.goesDown = true) ∧
      order = [6, 2, 0, 1, 5, 3, 4] ∧ selected = [1, 3] ∧
      selected.Sublist order ∧
      selected.Pairwise (fun m m' => order.idxOf m < order.idxOf m') ∧ selected.Nodup := by
  intro d p order selected
  have hd : d.WellFormed := (rooted_ofTree (by
    simp [Tree.NamesNodup, Tree.NamesNodupMembers, Tree.NamesNodupItems])).wellFormed
  have hp : ∀ s ∈ p.steps, s.goesDown = true := by decide +kernel
  exact ⟨hd, hp, by decide +kernel, by decide +kernel, select_of_goesDown hd hp none 6⟩

end Document

end Reshape
