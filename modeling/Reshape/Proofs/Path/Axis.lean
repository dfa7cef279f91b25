import Mathlib.Data.List.TakeWhile
import Reshape.Path.Axis
import Reshape.Proofs.Document.Preorder

/-!
# The axes of a node

What lies on an axis is what the name of the axis says. Everything below a node is found by a loop
that takes nodes off a stack and puts their children there instead. What is on the stack stands for
the pre-orders of these nodes, one after the other, and the loop lists just them, so that it ends
and its bound is never reached.

## Main definitions

* `Document.Visits`: the loop, without a bound.
* `Document.AxisRelations`: the axes of a node and the containers and children in the arena.

## Main statements

* `Rooted.visits`: what the loop lists.
* `Visits.visitStack_eq`: a bound that is large enough does not matter.
* `Rooted.descendants_eq`: everything below a node.
* `Document.axisRelations`.
-/

namespace Reshape.Document

variable {d : Document}

/-! ## The loop -/

/-- The loop lists `out` when it begins with this stack: it ends with the empty stack, and otherwise
lists the node on top and puts the children of that node in its place. -/
inductive Visits (d : Document) : List NodeId → List NodeId → Prop
  | done : Visits d [] []
  | visit {id : NodeId} {stack out : List NodeId} :
      Visits d (d.children id ++ stack) out → Visits d (id :: stack) (id :: out)

/-- With a bound that admits all visits the loop lists the same. -/
theorem Visits.visitStack_eq {stack out : List NodeId} (h : d.Visits stack out) {fuel : Nat}
    (hf : out.length ≤ fuel) : d.visitStack fuel stack = out := by
  induction h generalizing fuel with
  | done => cases fuel <;> rfl
  | visit _ ih =>
    obtain ⟨fuel, rfl⟩ := Nat.exists_eq_succ_of_ne_zero (Nat.ne_zero_of_lt hf)
    rw [visitStack, ih (Nat.le_of_succ_le_succ hf)]

namespace Rooted

variable (h : d.Rooted)
include h

/-- Before the loop goes on with the rest of the stack, it lists the pre-order of the node on
top. -/
theorem visits_cons (id : NodeId) {stack out : List NodeId} (hrest : d.Visits stack out) :
    d.Visits (id :: stack) (d.preorder id ++ out) := by
  induction id using h.forest.wellFounded_below.induction generalizing stack out with
  | h id ih =>
    have hchildren : ∀ ids, (∀ c ∈ ids, c ∈ d.children id) →
        d.Visits (ids ++ stack) (ids.flatMap d.preorder ++ out) := by
      intro ids hids
      induction ids with
      | nil => exact hrest
      | cons c ids ihids =>
        have hc := h.forest.mem_children_iff.mp (hids c List.mem_cons_self)
        rw [List.flatMap_cons, List.append_assoc]
        exact ih c hc (ihids fun c' hc' => hids c' (List.mem_cons_of_mem _ hc'))
    rw [h.preorder_eq]
    exact .visit (hchildren _ fun _ hc => hc)

/-- The loop ends, and lists the pre-orders of what is on the stack. -/
theorem visits (stack : List NodeId) : d.Visits stack (stack.flatMap d.preorder) := by
  induction stack with
  | nil => exact .done
  | cons id stack ih => exact h.visits_cons id ih

/-- There is not more below a node than in the arena. -/
theorem length_flatMap_preorder_le (id : NodeId) :
    ((d.children id).flatMap d.preorder).length ≤ d.nodes.size := by
  have hnodup := h.nodup_preorder id
  rw [h.preorder_eq] at hnodup
  have hsub : (d.children id).flatMap d.preorder ⊆ List.range d.nodes.size := by
    intro m hm
    obtain ⟨c, hc, hm⟩ := List.mem_flatMap.mp hm
    exact List.mem_range.mpr (h.lt_size_of_mem_preorder (h.forest.lt_size_of_mem_children hc) hm)
  simpa using (List.subperm_of_subset hnodup.of_cons hsub).length_le

/-- Everything below a node is listed in pre-order. -/
theorem descendants_eq (id : NodeId) :
    d.descendants id = (d.children id).flatMap d.preorder :=
  (h.visits _).visitStack_eq (h.length_flatMap_preorder_le id)

theorem cons_descendants (id : NodeId) : id :: d.descendants id = d.preorder id := by
  rw [h.descendants_eq, ← h.preorder_eq]

/-- A node is below the others that are around it. -/
theorem mem_descendants_iff {n m : NodeId} : m ∈ d.descendants n ↔ n ∈ d.ancestors m := by
  rw [h.descendants_eq, h.forest.mem_ancestors_iff, Relation.TransGen.head'_iff]
  simp only [List.mem_flatMap, h.forest.mem_children_iff, h.mem_preorder_iff]
  rfl

end Rooted

/-! ## Around a node -/

namespace ForestWith

variable (h : d.Forest)
include h

/-- Each node in the row of ancestors is the container of the one in front of it. -/
theorem isChain_ancestors (n : NodeId) :
    List.IsChain (fun c p => d.parent c = some p) (n :: d.ancestors n) := by
  induction n using h.wellFounded.induction with
  | h n ih =>
    rcases hp : d.parent n with _ | p
    · rw [ancestors_of_parent_eq_none hp]
      exact .singleton n
    · rw [h.ancestors_of_parent_eq_some hp]
      exact .cons_cons hp (ih p hp)

theorem parent_top (n : NodeId) : d.parent (d.top n) = none := by
  induction n using h.wellFounded.induction with
  | h n ih =>
    rw [top_eq h]
    rcases hp : d.parent n with _ | p
    · exact hp
    · exact ih p hp

/-- The children of a container are its child with the siblings in front of it and behind it. -/
theorem precedingSibling_append {p n : NodeId} (hp : d.parent n = some p) :
    d.axis n .precedingSibling ++ n :: d.axis n .followingSibling = d.children p := by
  have hsiblings : d.siblings n = d.children p := by rw [siblings, hp]
  have hdrop : (d.children p).dropWhile (· ≠ n) ≠ [] := fun hnil => by
    simpa using List.dropWhile_eq_nil_iff.mp hnil n (h.mem_children_iff.mpr hp)
  obtain ⟨m, rest, hrest⟩ := List.exists_cons_of_ne_nil hdrop
  have hhead := List.head?_dropWhile_not (· ≠ n) (d.children p)
  rw [hrest] at hhead
  obtain rfl : m = n := by simpa using hhead
  rw [axis, axis, hsiblings, hrest, List.drop_one, List.tail_cons, ← hrest,
    List.takeWhile_append_dropWhile]

end ForestWith

/-! ## All axes -/

/-- What lies on the axes of a node, told by the containers and children in the arena. -/
structure AxisRelations (d : Document) (n : NodeId) : Prop where
  /-- The loop that looks for everything below the node ends. -/
  visits : d.Visits (d.children n) (d.axis n .descendant)
  /-- It lists the pre-order of the node without the node itself. -/
  descendant_eq : n :: d.axis n .descendant = d.preorder n
  /-- Pre-orders go down without a bound. -/
  preorder_eq : ∀ m, d.preorder m = m :: (d.children m).flatMap d.preorder
  descendant_nodup : (d.axis n .descendant).Nodup
  mem_descendant_iff : ∀ m, m ∈ d.axis n .descendant ↔ n ∈ d.axis m .ancestor
  /-- Each of the ancestors is the container of the one in front of it. -/
  ancestor_chain : List.IsChain (fun c p => d.parent c = some p) (n :: d.axis n .ancestor)
  ancestor_last : (n :: d.axis n .ancestor).getLast? = some (d.top n)
  /-- The last of them is in no container. -/
  parent_top : d.parent (d.top n) = none
  siblings_eq : ∀ p, d.parent n = some p →
    d.axis n .precedingSibling ++ n :: d.axis n .followingSibling = d.children p
  siblings_nil : d.parent n = none →
    d.axis n .precedingSibling = [] ∧ d.axis n .followingSibling = []
  mem_child_iff : ∀ m, m ∈ d.axis n .child ↔ d.axis m .parent = [n]

/-- The axes are the relations in the forest that they are named for. -/
theorem axisRelations (h : d.WellFormed) (n : NodeId) : d.AxisRelations n where
  visits := by
    rw [axis, h.rooted.descendants_eq]
    exact h.rooted.visits _
  descendant_eq := h.rooted.cons_descendants n
  preorder_eq := h.rooted.preorder_eq
  descendant_nodup := by
    have hnodup := h.rooted.nodup_preorder n
    rw [← h.rooted.cons_descendants] at hnodup
    exact hnodup.of_cons
  mem_descendant_iff _ := h.rooted.mem_descendants_iff
  ancestor_chain := h.rooted.forest.isChain_ancestors n
  ancestor_last := by rw [List.getLast?_cons, axis, top, List.getLastD_eq_getLast?]
  parent_top := ForestWith.parent_top h.rooted.forest n
  siblings_eq _ hp := ForestWith.precedingSibling_append h.rooted.forest hp
  siblings_nil hp := by simp [axis, siblings, hp]
  mem_child_iff m := by
    rw [axis, axis, h.mem_children_iff]
    cases d.parent m <;> simp

/-- The second member of an object in a document whose containers have greater numbers than their
children. -/
theorem axisRelations_member :
    let d := ofTree (.object [("a", .array [.leaf .null]),
      ("b", .object [("x", .array [.leaf .null]), ("y", .leaf .null)])])
    d.WellFormed ∧ d.preorder d.root = [6, 1, 0, 5, 3, 2, 4] ∧
      d.axis 5 .descendant = [3, 2, 4] ∧ d.axis 5 .ancestor = [6] ∧
      d.axis 5 .precedingSibling = [1] ∧ d.axis 5 .followingSibling = [] ∧
      d.AxisRelations 5 := by
  intro d
  have hd : d.WellFormed := (rooted_ofTree (by
    simp [Tree.NamesNodup, Tree.NamesNodupMembers, Tree.NamesNodupItems])).wellFormed
  exact ⟨hd, by decide, by decide, by decide, by decide, by decide, axisRelations hd 5⟩

end Reshape.Document
