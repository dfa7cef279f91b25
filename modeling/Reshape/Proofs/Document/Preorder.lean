import Mathlib.Data.List.Flatten
import Reshape.Proofs.Document.Reachable

/-!
# Pre-order

The pre-order of a node lists the node and everything below it, each container before its children.
`Document.preorder` follows the children down as many levels as the arena has nodes. In a forest
this cuts nothing off, and what is proved about pre-orders here starts from the equation without a
bound.

## Main statements

* `ForestWith.wellFounded_below`: walking down ends.
* `Rooted.preorder_eq`: a node, and then the pre-orders of its children.
* `Rooted.mem_preorder_iff`: what is listed is below the node.
* `Rooted.nodup_preorder`: nothing is listed twice.
* `Rooted.preorder_sublist`: the pre-order of a node is part of that of every node above it.
-/

namespace Reshape.Document

variable {d : Document}

namespace ForestWith

variable {loose : List (Option String × NodeId)} (h : d.ForestWith loose)
include h

/-- Walking down ends, since every child is one level deeper and there are fewer levels than
nodes. -/
theorem wellFounded_below : WellFounded fun c p => d.Contains p c := by
  refine Subrelation.wf ?_ (measure fun id => d.nodes.size - (d.ancestors id).length).wf
  intro c p hp
  have hlt := h.length_ancestors_lt (lt_size_of_parent hp)
  have hlevel := h.length_ancestors_of_mem_children (h.mem_children_iff.mpr hp)
  simp only [WellFoundedRelation.rel, InvImage]
  omega

/-- Below a node that is `k` levels deep there are fewer levels than nodes less `k`, so that a bound
beyond that does not matter. -/
theorem preorderWithin_congr {fuel fuel' : Nat} {id : NodeId} (hid : id < d.nodes.size)
    (hf : d.nodes.size ≤ fuel + (d.ancestors id).length)
    (hf' : d.nodes.size ≤ fuel' + (d.ancestors id).length) :
    d.preorderWithin fuel id = d.preorderWithin fuel' id := by
  have hlt := h.length_ancestors_lt hid
  induction fuel generalizing fuel' id with
  | zero => omega
  | succ fuel ih =>
    obtain ⟨fuel', rfl⟩ := Nat.exists_eq_succ_of_ne_zero (show fuel' ≠ 0 by omega)
    rw [preorderWithin, preorderWithin]
    refine congrArg (id :: ·) (List.flatMap_congr fun c hc => ?_)
    have hlevel := h.length_ancestors_of_mem_children hc
    have hlt := h.lt_size_of_mem_children hc
    exact ih hlt (by omega) (by omega) (h.length_ancestors_lt hlt)

end ForestWith

namespace Rooted

variable (h : d.Rooted)
include h

/-- The pre-order of a node is the node, and then the pre-orders of its children. -/
theorem preorder_eq (id : NodeId) : d.preorder id = id :: (d.children id).flatMap d.preorder := by
  obtain ⟨n, hn⟩ := Nat.exists_eq_succ_of_ne_zero (Nat.ne_zero_of_lt h.root_lt)
  rw [preorder, hn, preorderWithin]
  refine congrArg (id :: ·) (List.flatMap_congr fun c hc => ?_)
  have hlevel := h.forest.length_ancestors_of_mem_children hc
  exact h.forest.preorderWithin_congr (h.forest.lt_size_of_mem_children hc) (by omega) (by omega)

/-- A pre-order lists what is below the node, and the node itself. -/
theorem mem_preorder_iff {n m : NodeId} :
    m ∈ d.preorder n ↔ Relation.ReflTransGen d.Contains n m := by
  constructor
  · intro hm
    induction n using h.forest.wellFounded_below.induction with
    | h n ih =>
      rw [h.preorder_eq, List.mem_cons, List.mem_flatMap] at hm
      rcases hm with rfl | ⟨c, hc, hm⟩
      · exact .refl
      · have hparent := h.forest.mem_children_iff.mp hc
        exact .head hparent (ih c hparent hm)
  · intro hm
    induction hm using Relation.ReflTransGen.head_induction_on with
    | refl =>
      rw [h.preorder_eq]
      exact List.mem_cons_self
    | head hp _ ih =>
      rw [h.preorder_eq]
      exact List.mem_cons_of_mem _ (List.mem_flatMap.mpr ⟨_, h.forest.mem_children_iff.mpr hp, ih⟩)

theorem self_mem_preorder (n : NodeId) : n ∈ d.preorder n := h.mem_preorder_iff.mpr .refl

/-- The nodes around a node are also around what is below it. -/
theorem ancestors_suffix {n m : NodeId} (hm : m ∈ d.preorder n) :
    (n :: d.ancestors n) <:+ (m :: d.ancestors m) := by
  induction h.mem_preorder_iff.mp hm with
  | refl => exact List.suffix_refl _
  | @tail p m _ hp ih =>
    rw [h.forest.ancestors_of_parent_eq_some hp]
    exact (ih (h.mem_preorder_iff.mpr ‹_›)).trans (List.suffix_cons m _)

/-- The pre-orders of two children of a node have nothing in common. -/
theorem eq_of_mem_preorder {n c c' m : NodeId} (hc : c ∈ d.children n) (hc' : c' ∈ d.children n)
    (hm : m ∈ d.preorder c) (hm' : m ∈ d.preorder c') : c = c' := by
  have hlevel := h.forest.length_ancestors_of_mem_children hc
  have hlevel' := h.forest.length_ancestors_of_mem_children hc'
  have hsuffix : (c :: d.ancestors c) <:+ (c' :: d.ancestors c') :=
    List.suffix_of_suffix_length_le (h.ancestors_suffix hm) (h.ancestors_suffix hm')
      (by simp [hlevel, hlevel'])
  have heq := hsuffix.eq_of_length (by simp [hlevel, hlevel'])
  exact (List.cons.inj heq).1

/-- A pre-order lists nothing twice. -/
theorem nodup_preorder (n : NodeId) : (d.preorder n).Nodup := by
  induction n using h.forest.wellFounded_below.induction with
  | h n ih =>
    rw [h.preorder_eq, List.nodup_cons, List.nodup_flatMap]
    refine ⟨fun hn => ?_, fun c hc => ih c (h.forest.mem_children_iff.mp hc), ?_⟩
    · obtain ⟨c, hc, hn⟩ := List.mem_flatMap.mp hn
      have hparent := h.forest.mem_children_iff.mp hc
      exact h.forest.not_transGen_self n (.head' hparent (h.mem_preorder_iff.mp hn))
    · refine (h.forest.children_nodup n).imp_of_mem fun hc hc' hne => ?_
      exact fun m hm hm' => hne (h.eq_of_mem_preorder hc hc' hm hm')

theorem lt_size_of_mem_preorder {n m : NodeId} (hn : n < d.nodes.size) (hm : m ∈ d.preorder n) :
    m < d.nodes.size := by
  rcases Relation.ReflTransGen.cases_tail (h.mem_preorder_iff.mp hm) with rfl | ⟨p, -, hp⟩
  · exact hn
  · exact lt_size_of_parent hp

/-- The pre-order of a child is part of that of its container. -/
theorem preorder_sublist_of_mem_children {n c : NodeId} (hc : c ∈ d.children n) :
    (d.preorder c).Sublist (d.preorder n) := by
  have hsingle := (List.singleton_sublist.mpr hc).flatMap d.preorder
  rw [List.flatMap_singleton] at hsingle
  rw [h.preorder_eq n]
  exact hsingle.cons n

/-- The pre-order of a node is part of that of every node above it. -/
theorem preorder_sublist {n m : NodeId} (hm : m ∈ d.preorder n) :
    (d.preorder m).Sublist (d.preorder n) := by
  induction h.mem_preorder_iff.mp hm using Relation.ReflTransGen.head_induction_on with
  | refl => exact List.Sublist.refl _
  | head hp hrest ih =>
    exact (ih (h.mem_preorder_iff.mpr hrest)).trans
      (h.preorder_sublist_of_mem_children (h.forest.mem_children_iff.mpr hp))

/-- Every node is below its topmost ancestor. -/
theorem mem_preorder_top (n : NodeId) : n ∈ d.preorder (d.top n) := by
  induction n using h.forest.wellFounded.induction with
  | h n ih =>
    rw [ForestWith.top_eq h.forest]
    rcases hp : d.parent n with _ | p
    · exact h.self_mem_preorder n
    · exact h.mem_preorder_iff.mpr ((h.mem_preorder_iff.mp (ih p hp)).tail hp)

end Rooted

end Reshape.Document
