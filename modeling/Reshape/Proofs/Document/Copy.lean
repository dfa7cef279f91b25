import Reshape.Proofs.Document.Preorder

/-!
# Copies

A copy of what lies below a node adds as many nodes as are there, and each of them lies below the
node on top of the copy: it was not there before, and nothing that was there before is below a node
that was not.

## Main statements

* `Document.size_addCopy`: a copy adds the nodes of the tree.
* `Rooted.length_preorder`: what lies below a node, counted in the arena and in the tree.
* `Document.mem_preorder_addCopy`: the nodes of a copy are those that it adds.
* `Document.addCopy_below`: what a copy adds to a document, and a copy on its own.
-/

namespace Reshape

/-! ## Counting nodes -/

namespace Tree

variable {α : Type}

theorem sizeMembers_eq (ms : List (String × Tree α)) :
    sizeMembers ms = sizeItems (ms.map Prod.snd) := by
  induction ms with
  | nil => rfl
  | cons m ms ih => rw [sizeMembers, ih, List.map_cons, sizeItems]

/-- Rows of the sizes of trees are together as long as the trees have nodes. -/
theorem length_flatMap_eq_sizeItems {β γ : Type} {row : β → List γ} {tree : β → Tree α}
    {xs : List β} (h : ∀ x ∈ xs, (row x).length = (tree x).size) :
    (xs.flatMap row).length = sizeItems (xs.map tree) := by
  induction xs with
  | nil => rfl
  | cons x xs ih =>
    rw [List.forall_mem_cons] at h
    rw [List.flatMap_cons, List.length_append, h.1, ih h.2, List.map_cons, sizeItems]

end Tree

namespace Document

mutual

/-- A copy adds as many nodes as the tree has. -/
theorem size_addCopy : ∀ (t : Tree Scalar) (d : Document),
    (addCopy d t).1.nodes.size = d.nodes.size + t.size
  | .leaf s, d => size_alloc _
  | .array ts, d => by
    rw [addCopy_array, size_alloc, size_placeIn, size_addCopyItems, Tree.size, Nat.add_assoc]
  | .object ms, d => by
    rw [addCopy_object, size_alloc, size_placeIn, size_addCopyMembers, Tree.size, Nat.add_assoc]

theorem size_addCopyItems : ∀ (ts : List (Tree Scalar)) (d : Document),
    (addCopyItems d ts).1.nodes.size = d.nodes.size + Tree.sizeItems ts
  | [], d => by rw [addCopyItems, Tree.sizeItems, Nat.add_zero]
  | t :: ts, d => by
    unfold addCopyItems
    rw [size_addCopyItems, size_addCopy, Tree.sizeItems, Nat.add_assoc]

theorem size_addCopyMembers : ∀ (ms : List (String × Tree Scalar)) (d : Document),
    (addCopyMembers d ms).1.nodes.size = d.nodes.size + Tree.sizeMembers ms
  | [], d => by rw [addCopyMembers, Tree.sizeMembers, Nat.add_zero]
  | (name, t) :: ms, d => by
    unfold addCopyMembers
    rw [size_addCopyMembers, size_setName, size_addCopy, Tree.sizeMembers, Nat.add_assoc]

end

/-- A pre-order is as long as the tree has nodes. -/
theorem Rooted.length_preorder {d : Document} (h : d.Rooted) (id : NodeId) :
    (d.preorder id).length = (d.tree id).size := by
  induction id using h.forest.wellFounded_below.induction with
  | h id ih =>
    have hlength : ((d.children id).flatMap d.preorder).length =
        Tree.sizeItems ((d.children id).map d.tree) :=
      Tree.length_flatMap_eq_sizeItems fun c hc => ih c (h.forest.mem_children_iff.mp hc)
    rw [h.preorder_eq, List.length_cons, hlength, children]
    rcases hc : d.content id with s | items | ms
    · rw [tree_of_content_value hc]
      rfl
    · rw [h.forest.tree_of_content_array hc, Tree.size]
      rfl
    · rw [h.forest.tree_of_content_object hc, Tree.size, Tree.sizeMembers_eq, Content.children,
        List.map_map, List.map_map]
      rfl

/-! ## The nodes of a copy -/

variable {d d' source : Document} {id : NodeId} {t : Tree Scalar}

/-- Nodes that were there before are not below one that was not. -/
theorem Extends.lt_size_of_reflTransGen {loose : List (Option String × NodeId)}
    (hext : d.Extends d') (h : d.ForestWith loose) {n m : NodeId}
    (hnm : Relation.ReflTransGen d'.Contains n m) (hm : m < d.nodes.size) : n < d.nodes.size := by
  induction hnm with
  | refl => exact hm
  | tail _ hp ih => exact ih (h.parent_lt_size ((hext.parent_eq hm).symm.trans hp))

/-- A pre-order does not depend on which node is the root. -/
theorem preorder_withRoot (d : Document) (root id : NodeId) :
    { d with root }.preorder id = d.preorder id := by
  have hwithin : ∀ fuel id,
      { d with root }.preorderWithin fuel id = d.preorderWithin fuel id := by
    intro fuel
    induction fuel with
    | zero => exact fun _ => rfl
    | succ fuel ih => exact fun id => congrArg (id :: ·) (List.flatMap_congr fun c _ => ih c)
  exact hwithin _ id

/-- The nodes of a copy are those that it adds: they are new, and as many as the tree has. -/
theorem mem_preorder_addCopy (h : d.Forest) (ht : t.NamesNodup) {x : NodeId} :
    x ∈ (addCopy d t).1.preorder (addCopy d t).2 ↔
      d.nodes.size ≤ x ∧ x < (addCopy d t).1.nodes.size := by
  have hl := laid_addCopy ht h
  obtain ⟨hr, htree⟩ := hl.rooted
  rw [← preorder_withRoot _ (addCopy d t).2]
  generalize hxs : { (addCopy d t).1 with root := (addCopy d t).2 }.preorder (addCopy d t).2 = xs
  have hsub : xs ⊆ List.range' d.nodes.size t.size := by
    intro m hm
    rw [← hxs] at hm
    have hlt : m < (addCopy d t).1.nodes.size := hr.lt_size_of_mem_preorder hl.id_lt hm
    have hle : d.nodes.size ≤ m := Nat.le_of_not_lt fun hlt =>
      Nat.not_lt.mpr hl.le_id (hl.ext.lt_size_of_reflTransGen h (hr.mem_preorder_iff.mp hm) hlt)
    exact List.mem_range'_1.mpr ⟨hle, size_addCopy t d ▸ hlt⟩
  have hlength : xs.length = t.size := by
    rw [← hxs, hr.length_preorder]
    exact congrArg Tree.size htree
  have hperm : xs.Perm (List.range' d.nodes.size t.size) :=
    (List.subperm_of_subset (hxs ▸ hr.nodup_preorder _) hsub).perm_of_length_le (by simp [hlength])
  rw [hperm.mem_iff, List.mem_range'_1, size_addCopy]

/-- A copy of what lies below a node of any document adds as many nodes as are there, and changes
neither the root nor a node that was there before. The node on top of the copy has no container and
no name, shows the same tree, and has just the new nodes below it. A copy on its own has a root
without a key, the text of the node, and nothing but the copy in its arena. -/
theorem addCopy_below (hd : d.WellFormed) (hs : source.WellFormed) (hid : id < source.nodes.size) :
    let d' := (d.addCopy (source.tree id)).1
    let top := (d.addCopy (source.tree id)).2
    let alone := source.copyOf id
    d'.nodes.size = d.nodes.size + (source.preorder id).length ∧
    d.Extends d' ∧ d'.WellFormed ∧
    d'.parent top = none ∧ d'.name top = none ∧
    (∃ t, Shows source id t ∧ Shows d' top t) ∧
    (∀ x, x ∈ d'.preorder top ↔ d.nodes.size ≤ x ∧ x < d'.nodes.size) ∧
    alone.key alone.root = none ∧ alone.toJson = source.nodeJson id ∧
    ∀ x, x < alone.nodes.size → x ∈ alone.preorder alone.root := by
  intro d' top alone
  have hnames := hs.rooted.forest.namesNodup_tree hid
  have hl := laid_addCopy hnames hd.rooted.forest
  have halone := rooted_ofTree hnames
  refine ⟨?_, hl.ext, (hd.rooted.addCopy hs.rooted hid).wellFormed, hl.parent_id,
    hl.forest.name_eq_none top hl.parent_id (by simp), ?_, ?_, ?_, ?_, ?_⟩
  · rw [hs.rooted.length_preorder]
    exact size_addCopy _ d
  · exact ⟨source.tree id, hs.rooted.forest.shows_tree hid, hl.shows d' fun _ _ _ => rfl⟩
  · exact fun x => mem_preorder_addCopy hd.rooted.forest hnames
  · exact (ForestWith.key_eq_none_iff halone.forest).mpr halone.parent_root
  · exact congrArg Tree.toJson (toTree_ofTree hnames)
  · intro x hx
    exact (preorder_withRoot _ _ _).symm ▸
      (mem_preorder_addCopy forest_empty hnames).mpr ⟨Nat.zero_le x, hx⟩

/-- A member that replaced another one is copied next to a loose node. -/
theorem addCopy_below_replaced :
    let d := (new (.array [])).perform (.createValue .null)
    let source := ofReading (.object [("a", .leaf .null),
      ("a", .object [("x", .leaf (.boolean true)), ("y", .array [])])])
    let d' := (d.addCopy (source.tree 2)).1
    d.WellFormed ∧ source.WellFormed ∧ 2 < source.nodes.size ∧
      d.nodes.size = 2 ∧ d'.nodes.size = 5 ∧ d.Extends d' ∧ d'.WellFormed ∧ 2 ∈ d'.preorder 4 ∧
      (source.copyOf 2).toJson = source.nodeJson 2 := by
  intro d source d'
  have hd : d.WellFormed := wellFormed_of_reachable (.perform .array nofun)
  have hs : source.WellFormed := (rooted_ofReading _).wellFormed
  have hid : 2 < source.nodes.size := by decide +kernel
  have hbelow : (source.preorder 2).length = 3 := by decide +kernel
  have htop : (d.addCopy (source.tree 2)).2 = 4 := by decide +kernel
  obtain ⟨hsize, hext, hwf, -, -, -, hmem, -, hjson, -⟩ := addCopy_below hd hs hid
  rw [hbelow] at hsize
  rw [htop] at hmem
  have hlt : 2 < d'.nodes.size :=
    Nat.lt_of_lt_of_eq (show 2 < d.nodes.size + 3 by decide) hsize.symm
  exact ⟨hd, hs, hid, rfl, hsize, hext, hwf, (hmem 2).mpr ⟨Nat.le_refl 2, hlt⟩, hjson⟩

end Document

end Reshape
