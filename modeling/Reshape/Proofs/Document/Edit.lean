import Reshape.Proofs.Document.Forest

/-!
# Edits keep a forest a forest

Each edit changes what one node lists, and the place of the nodes that are new or no longer there.
The condition `Document.attachable` is what keeps the walk upwards finite. For every edit it is said
once, at the end, when it succeeds and with which document.
-/

namespace Reshape.Document

variable {d d' : Document}

theorem attachable_eq_ok_iff {p c : NodeId} :
    d.attachable p c = .ok () ↔
      d.parent c = none ∧ c ≠ d.root ∧ c ≠ p ∧ c ∉ d.ancestors p := by
  unfold attachable
  rcases hc : d.parent c with _ | q <;> grind

/-- A node that loses its place, and is no longer listed, leaves a forest. -/
theorem Forest.unlink (h : d.Forest) {p child : NodeId} {c : Content}
    (hp : d.parent child = some p)
    (hcontent : ∀ q, d'.content q = if q = p then c else d.content q)
    (hparent : ∀ x, d'.parent x = if x = child then none else d.parent x)
    (hname : ∀ x, d'.name x = if x = child then none else d.name x)
    (hlinks : ∀ k x, (k, x) ∈ c.links ↔ (k, x) ∈ (d.content p).links ∧ x ≠ child)
    (hsub : c.children.Sublist (d.children p)) (hnames : c.NamesNodup) : d'.Forest := by
  refine h.relink p ?_ ?_ ?_ ?_ ?_ ?_ ?_
  · intro q hq
    rw [hcontent, if_neg hq]
  · intro x hx hx'
    rw [hparent] at hx' ⊢
    rw [hname]
    grind
  · intro k x
    rw [hcontent, if_pos rfl, hlinks, h.mem_links_iff, hparent, hname]
    grind
  · rw [children, hcontent, if_pos rfl]
    exact (h.children_nodup p).sublist hsub
  · rw [hcontent, if_pos rfl]
    exact hnames
  · intro x hx' hx
    rw [hparent] at hx'
    grind
  · intro x hx hx'
    rw [hparent] at hx' ⊢
    rw [hname]
    grind

/-! ## Members -/

section linkMember

variable {object child x : NodeId} {ms : Members NodeId} {name : String}

@[simp] theorem size_linkMember :
    (d.linkMember object ms name child).nodes.size = d.nodes.size := by
  unfold linkMember
  cases ms.find? name <;> simp [detach]

@[simp] theorem root_linkMember : (d.linkMember object ms name child).root = d.root := by
  unfold linkMember
  cases ms.find? name <;> simp [detach]

theorem content_linkMember (ho : object < d.nodes.size) :
    (d.linkMember object ms name child).content x =
      if x = object then .object (ms.put name child) else d.content x := by
  unfold linkMember
  cases ms.find? name <;> simp [detach, content_setContent ho]

theorem parent_linkMember (hc : child < d.nodes.size)
    (hold : ∀ old, ms.find? name = some old → old < d.nodes.size) :
    (d.linkMember object ms name child).parent x =
      if x = child then some object else if ms.find? name = some x then none else d.parent x := by
  unfold linkMember
  rcases h : ms.find? name with _ | old
  · simp [parent_setPlace, hc]
  · simp [parent_setPlace, detach, hc, hold old h, eq_comm]

theorem name_linkMember (hc : child < d.nodes.size)
    (hold : ∀ old, ms.find? name = some old → old < d.nodes.size) :
    (d.linkMember object ms name child).name x =
      if x = child then some name else if ms.find? name = some x then none else d.name x := by
  unfold linkMember
  rcases h : ms.find? name with _ | old
  · simp [name_setPlace, hc]
  · simp [name_setPlace, detach, hc, hold old h, eq_comm]

theorem Forest.linkMember (h : d.Forest) (ho : d.content object = .object ms)
    (hc : child < d.nodes.size) (hfree : d.parent child = none) (hne : child ≠ object)
    (hnot : child ∉ d.ancestors object) : (d.linkMember object ms name child).Forest := by
  have hlt := lt_size_of_content_object ho
  have hnames := h.names_nodup object ms ho
  -- A node is a member exactly if it says so.
  have hmem : ∀ k x, (k, x) ∈ ms ↔ d.parent x = some object ∧ d.name x = some k := by
    intro k x
    rw [← h.mem_links_iff, ho, Content.mem_links_object]
    simp
  have hold : ∀ old, ms.find? name = some old → d.parent old = some object ∧
      d.name old = some name := fun old ho =>
    (hmem name old).mp (Members.mem_of_find?_eq_some ho)
  have hoLt : ∀ old, ms.find? name = some old → old < d.nodes.size := fun old ho =>
    lt_size_of_parent (hold old ho).1
  have hnamed : ∀ x, d.parent x = some object → ∃ k, d.name x = some k := by
    intro x hx
    have hl := (h.mem_links_iff object (d.name x) x).mpr ⟨hx, rfl⟩
    rw [ho, Content.mem_links_object] at hl
    exact hl.imp fun _ => And.left
  have hfind : ∀ x, ms.find? name = some x ↔ d.parent x = some object ∧ d.name x = some name :=
    fun x => (Members.find?_eq_some_iff hnames).trans (hmem name x)
  refine h.relink object ?_ ?_ ?_ ?_ ?_ ?_ ?_
  · intro q hq
    rw [content_linkMember hlt, if_neg hq]
  · intro x hx hx'
    rw [parent_linkMember hc hoLt] at hx' ⊢
    rw [name_linkMember hc hoLt]
    grind
  · intro k x
    rw [content_linkMember hlt, if_pos rfl, parent_linkMember hc hoLt, name_linkMember hc hoLt,
      Content.mem_links_object]
    simp only [Members.mem_put_iff hnames, hmem]
    grind
  · rw [children, content_linkMember hlt, if_pos rfl]
    have hnd := h.children_nodup object
    rw [children, ho] at hnd
    refine Members.nodup_values_put hnd name ?_
    intro hm
    obtain ⟨⟨k, x⟩, hk, rfl⟩ := List.mem_map.mp hm
    rw [((hmem k x).mp hk).1] at hfree
    cases hfree
  · rw [content_linkMember hlt, if_pos rfl]
    rintro _ ⟨⟩
    exact Members.nodup_names_put hnames name child
  · intro x hx' hx
    rw [parent_linkMember hc hoLt] at hx'
    grind
  · intro x hx hx'
    rw [parent_linkMember hc hoLt] at hx' ⊢
    rw [name_linkMember hc hoLt]
    grind

/-- A member that loses its place leaves a forest. -/
theorem Forest.removeMember (h : d.Forest) (ho : d.content object = .object ms)
    (hf : ms.find? name = some child) :
    ((d.setContent object (.object (Members.erase ms name))).detach child).Forest := by
  have hlt := lt_size_of_content_object ho
  have hnames := h.names_nodup object ms ho
  have hmem : ∀ k x, (k, x) ∈ ms ↔ d.parent x = some object ∧ d.name x = some k := by
    intro k x
    rw [← h.mem_links_iff, ho, Content.mem_links_object]
    simp
  have hc := (hmem name child).mp (Members.mem_of_find?_eq_some hf)
  have hcLt := lt_size_of_parent hc.1
  refine h.unlink (c := .object (Members.erase ms name)) hc.1 ?_ ?_ ?_ ?_ ?_ ?_
  · intro q
    simp [detach, content_setContent hlt]
  · intro x
    simp [detach, parent_setPlace, hcLt]
  · intro x
    simp [detach, name_setPlace, hcLt]
  · intro k x
    -- Only the node that is detached has the name that is erased.
    have hne : ∀ k, (k, x) ∈ ms → (k ≠ name ↔ x ≠ child) := by
      intro k hk
      have hk' := (hmem k x).mp hk
      have hn := Members.find?_eq_some_iff hnames (k := k) (b := x)
      grind
    rw [ho, Content.mem_links_object, Content.mem_links_object]
    simp only [Members.mem_erase_iff hnames]
    grind
  · rw [children, ho]
    exact (Members.erase_sublist ms name).map _
  · rintro _ ⟨⟩
    exact Members.nodup_names_erase hnames name

end linkMember

/-! ## Elements -/

section linkElement

variable {array child x : NodeId} {items : List NodeId} {i : Nat}

@[simp] theorem size_linkElement :
    (d.linkElement array items i child).nodes.size = d.nodes.size := by
  simp [linkElement]

@[simp] theorem root_linkElement : (d.linkElement array items i child).root = d.root := rfl

theorem content_linkElement (ha : array < d.nodes.size) :
    (d.linkElement array items i child).content x =
      if x = array then .array (items.insertIdx i child) else d.content x := by
  simp [linkElement, content_setContent ha]

theorem parent_linkElement (hc : child < d.nodes.size) :
    (d.linkElement array items i child).parent x =
      if x = child then some array else d.parent x := by
  simp [linkElement, parent_setParent, hc]

@[simp] theorem name_linkElement :
    (d.linkElement array items i child).name x = d.name x := by
  simp [linkElement]

theorem Forest.linkElement (h : d.Forest) (ha : d.content array = .array items)
    (hi : i ≤ items.length) (hc : child < d.nodes.size) (hfree : d.parent child = none)
    (hne : child ≠ array) (hnot : child ∉ d.ancestors array) :
    (d.linkElement array items i child).Forest := by
  have hlt := lt_size_of_content_array ha
  have hmem : ∀ k x, k = none ∧ x ∈ items ↔ d.parent x = some array ∧ d.name x = k := by
    intro k x
    rw [← h.mem_links_iff, ha, Content.mem_links_array]
  have hname : d.name child = none := h.name_eq_none child hfree (by simp)
  refine h.relink array ?_ ?_ ?_ ?_ ?_ ?_ ?_
  · intro q hq
    rw [content_linkElement hlt, if_neg hq]
  · intro x hx hx'
    rw [parent_linkElement hc] at hx' ⊢
    grind [name_linkElement]
  · intro k x
    rw [content_linkElement hlt, if_pos rfl, parent_linkElement hc, name_linkElement,
      Content.mem_links_array, List.mem_insertIdx hi]
    by_cases hx : x = child
    · simp [hx, hname, eq_comm]
    · rw [if_neg hx, ← hmem k x, or_iff_right hx]
  · rw [children, content_linkElement hlt, if_pos rfl]
    have hnd := h.children_nodup array
    rw [children, ha] at hnd
    refine (List.perm_insertIdx child items hi).nodup_iff.mpr
      (List.nodup_cons.mpr ⟨?_, hnd⟩)
    intro hm
    rw [((hmem none child).mp ⟨rfl, hm⟩).1] at hfree
    cases hfree
  · rw [content_linkElement hlt, if_pos rfl]
    rintro _ ⟨⟩
  · intro x hx' hx
    rw [parent_linkElement hc] at hx'
    grind
  · intro x hx hx'
    rw [parent_linkElement hc] at hx' ⊢
    grind

/-- An element that loses its place leaves a forest. -/
theorem Forest.removeItem (h : d.Forest) (ha : d.content array = .array items)
    (hi : items[i]? = some child) :
    ((d.setContent array (.array (items.eraseIdx i))).setParent child none).Forest := by
  have hlt := lt_size_of_content_array ha
  have hnd : items.Nodup := by simpa [children, ha, Content.children] using h.children_nodup array
  have hc := (h.mem_links_iff array none child).mp (by
    rw [ha, Content.mem_links_array]
    exact ⟨rfl, List.mem_of_getElem? hi⟩)
  have hcLt := lt_size_of_parent hc.1
  refine h.unlink (c := .array (items.eraseIdx i)) hc.1 ?_ ?_ ?_ ?_ ?_ ?_
  · intro q
    simp [content_setContent hlt]
  · intro x
    simp [parent_setParent, hcLt]
  · intro x
    rw [name_setParent, name_setContent]
    split
    · next hx => rw [hx, hc.2]
    · rfl
  · intro k x
    have herase : x ∈ items.eraseIdx i ↔ x ∈ items ∧ x ≠ child := by
      rw [List.mem_eraseIdx_iff_getElem?, List.mem_iff_getElem?]
      have hinj : ∀ j, items[j]? = some child → j = i := fun j hj =>
        ((List.getElem?_inj (List.getElem?_eq_some_iff.mp hi).1 hnd).mp (hi.trans hj.symm)).symm
      grind
    rw [ha, Content.mem_links_array, Content.mem_links_array, herase, and_assoc]
  · rw [children, ha]
    exact List.eraseIdx_sublist ..
  · rintro _ ⟨⟩

end linkElement

/-! ## Successful edits -/

section Success

variable {object array child id : NodeId} {name : String} {i : Nat} {s : Scalar}

theorem insertField_eq_ok_iff {r : Document × Option NodeId} :
    d.insertField object name child = .ok r ↔
      ∃ ms, d.content object = .object ms ∧ d.attachable object child = .ok () ∧
        (d.linkMember object ms name child, Members.find? ms name) = r := by
  unfold insertField
  rcases d.content object with _ | _ | ms
  · simp
  · simp
  · rcases d.attachable object child with e | u
    · simp
    · simp

theorem removeField_eq_ok_iff {r : Document × Option NodeId} :
    d.removeField object name = .ok r ↔
      ∃ ms, d.content object = .object ms ∧
        ((∃ old, Members.find? ms name = some old ∧
          ((d.setContent object (.object (Members.erase ms name))).detach old, some old) = r) ∨
        Members.find? ms name = none ∧ (d, none) = r) := by
  unfold removeField
  rcases d.content object with _ | _ | ms
  · simp
  · simp
  · rcases h : Members.find? ms name with _ | old <;> simp [h]

theorem insertElement_eq_ok_iff :
    d.insertElement array i child = .ok d' ↔
      ∃ items, d.content array = .array items ∧ i ≤ items.length ∧
        d.attachable array child = .ok () ∧ d.linkElement array items i child = d' := by
  unfold insertElement
  rcases d.content array with _ | items | _
  · simp
  · rcases Nat.lt_or_ge items.length i with hi | hi
    · simp [hi]
    · rcases d.attachable array child with e | u
      · simp [Nat.not_lt.mpr hi]
      · simp [hi, Nat.not_lt.mpr hi]
  · simp

theorem pushElement_eq_ok_iff :
    d.pushElement array child = .ok d' ↔
      ∃ items, d.content array = .array items ∧ d.attachable array child = .ok () ∧
        d.linkElement array items items.length child = d' := by
  rcases hc : d.content array with _ | items | _
  · simp [pushElement, hc]
  · simp [pushElement, insertElement_eq_ok_iff, hc]
  · simp [pushElement, hc]

theorem removeElement_eq_ok_iff {r : Document × NodeId} :
    d.removeElement array i = .ok r ↔
      ∃ items old, d.content array = .array items ∧ items[i]? = some old ∧
        ((d.setContent array (.array (items.eraseIdx i))).setParent old none, old) = r := by
  unfold removeElement
  rcases d.content array with _ | items | _
  · simp
  · rcases h : items[i]? with _ | old
    · simp [h]
    · simp [h]
  · simp

theorem setValue_eq_ok_iff :
    d.setValue id s = .ok d' ↔
      (∃ old, d.content id = .value old) ∧ d.setContent id (.value s) = d' := by
  unfold setValue
  rcases d.content id with old | _ | _ <;> simp

theorem setRoot_eq_ok_iff :
    d.setRoot id = .ok d' ↔
      (id = d.root ∨ d.parent id = none) ∧ { d with root := id } = d' := by
  unfold setRoot
  rcases h : d.parent id with _ | p
  · simp
  · by_cases hr : id = d.root <;> simp [hr]

end Success

end Reshape.Document
