import Reshape.Proofs.Document.Layout

/-!
# The output arena

Rendering adds nodes to an arena, each on top of its own tree until a container that is new as well
takes it. This is why no edit of the output is ever refused: the container is on top, so nothing is
around it, and what it takes is a later node, which is on top too and not the root.

## Main definitions

* `Document.Made`: a new node on top.
* `Document.Begun`: a container that is being filled.

## Main statements

* `Document.made_addCopy`: a copy of any tree is a new node on top.
* `Document.Begun.exists_pushElement`, `Document.Begun.exists_insertField`: the edits succeed.
-/

namespace Reshape.Document

variable {base d d' : Document} {top child : NodeId}

/-! ## New nodes on top -/

/-- The arena has further nodes, and `id` is one of them without a container. -/
structure Made (d d' : Document) (id : NodeId) : Prop where
  ext : d.Extends d'
  le_id : d.nodes.size ≤ id
  id_lt : id < d'.nodes.size
  parent_id : d'.parent id = none

theorem Made.ne_root (h : Made d d' child) (hroot : d.root < d.nodes.size) : child ≠ d'.root := by
  rw [h.ext.root_eq]
  exact Nat.ne_of_gt (Nat.lt_of_lt_of_le hroot h.le_id)

theorem made_alloc (d : Document) (c : Content) : Made d (d.alloc c).1 d.nodes.size where
  ext := extends_alloc d c
  le_id := Nat.le_refl _
  id_lt := by simp
  parent_id := by rw [parent_alloc, parent_of_size_le (Nat.le_refl _)]

theorem Made.setName (h : Made d d' child) (k : Option String) :
    Made d (d'.setName child k) child where
  ext := extends_setName h.ext h.le_id k
  le_id := h.le_id
  id_lt := by rw [size_setName]; exact h.id_lt
  parent_id := by rw [parent_setName, h.parent_id]

/-! ## Copies -/

/-- Further nodes that are listed. -/
structure MadeAll (d d' : Document) (ids : List NodeId) : Prop where
  ext : d.Extends d'
  mem : ∀ x ∈ ids, d.nodes.size ≤ x ∧ x < d'.nodes.size

theorem MadeAll.nil (d : Document) : MadeAll d d [] := ⟨.refl d, fun _ hx => nomatch hx⟩

theorem MadeAll.cons {d₁ : Document} {ids : List NodeId} (h : Made d d₁ child)
    (hs : MadeAll d₁ d' ids) : MadeAll d d' (child :: ids) where
  ext := h.ext.trans hs.ext
  mem x hx := by
    rcases List.mem_cons.mp hx with rfl | hx
    · exact ⟨h.le_id, Nat.lt_of_lt_of_le h.id_lt hs.ext.size_le⟩
    · exact ⟨Nat.le_trans h.ext.size_le (hs.mem x hx).1, (hs.mem x hx).2⟩

/-- A container of new nodes is new and on top. -/
theorem MadeAll.made {c : Content} (h : MadeAll d d' c.children) :
    Made d ((d'.placeIn d'.nodes.size c.children).alloc c).1 d'.nodes.size where
  ext := (extends_placeIn h.ext fun x hx => (h.mem x hx).1).trans (extends_alloc _ c)
  le_id := h.ext.size_le
  id_lt := by simp
  parent_id := by
    rw [parent_alloc, parent_placeIn fun x hx => (h.mem x hx).2,
      if_neg fun hm => Nat.lt_irrefl _ (h.mem _ hm).2, parent_of_size_le (Nat.le_refl _)]

mutual

theorem made_addCopy : ∀ (t : Tree Scalar) (d : Document),
    Made d (addCopy d t).1 (addCopy d t).2
  | .leaf s, d => made_alloc d _
  | .array ts, d => by
    rw [addCopy_array, alloc_snd, size_placeIn]
    exact MadeAll.made (c := .array (addCopyItems d ts).2) (madeAll_addCopyItems ts d)
  | .object ms, d => by
    rw [addCopy_object, alloc_snd, size_placeIn]
    exact MadeAll.made (c := .object (addCopyMembers d ms).2) (madeAll_addCopyMembers ms d)

theorem madeAll_addCopyItems : ∀ (ts : List (Tree Scalar)) (d : Document),
    MadeAll d (addCopyItems d ts).1 (addCopyItems d ts).2
  | [], d => .nil d
  | t :: ts, d => .cons (made_addCopy t d) (madeAll_addCopyItems ts _)

theorem madeAll_addCopyMembers : ∀ (ms : List (String × Tree Scalar)) (d : Document),
    MadeAll d (addCopyMembers d ms).1 ((addCopyMembers d ms).2.map Prod.snd)
  | [], d => .nil d
  | (name, t) :: ms, d => by
    rw [addCopyMembers, List.map_cons]
    exact .cons ((made_addCopy t d).setName (some name)) (madeAll_addCopyMembers ms _)

end

/-! ## Containers that are being filled -/

/-- `top` is a new container, on top, and lists new nodes only. -/
structure Begun (base : Document) (top : NodeId) (kind : Shape) (d : Document) : Prop where
  made : Made base d top
  shape_top : d.shape top = kind
  of_mem_children : ∀ x ∈ d.children top, base.nodes.size ≤ x ∧ x < d.nodes.size

theorem begun_alloc (base : Document) {c : Content} (hc : c.children = []) :
    Begun base base.nodes.size c.shape (base.alloc c).1 where
  made := made_alloc base c
  shape_top := by rw [shape, content_alloc, if_pos rfl]
  of_mem_children x hx := by
    rw [children, content_alloc, if_pos rfl, hc] at hx
    cases hx

/-- Nodes that are made meanwhile do not matter to the container. -/
theorem Begun.extend {kind : Shape} (h : Begun base top kind d) (hext : d.Extends d') :
    Begun base top kind d' where
  made := {
    ext := h.made.ext.trans hext
    le_id := h.made.le_id
    id_lt := Nat.lt_of_lt_of_le h.made.id_lt hext.size_le
    parent_id := by rw [hext.parent_eq h.made.id_lt, h.made.parent_id] }
  shape_top := by rw [shape, hext.content_eq h.made.id_lt]; exact h.shape_top
  of_mem_children x hx := by
    rw [children, hext.content_eq h.made.id_lt] at hx
    obtain ⟨hle, hlt⟩ := h.of_mem_children x hx
    exact ⟨hle, Nat.lt_of_lt_of_le hlt hext.size_le⟩

theorem Begun.root_lt {kind : Shape} (hroot : base.root < base.nodes.size)
    (h : Begun base top kind d) : d.root < d.nodes.size := by
  rw [h.made.ext.root_eq]
  exact Nat.lt_of_lt_of_le hroot h.made.ext.size_le

/-- A container on top takes every other node on top that is not the root. -/
theorem attachable_of_parent_eq_none (htop : d.parent top = none) (hchild : d.parent child = none)
    (hroot : child ≠ d.root) (hne : child ≠ top) : d.attachable top child = .ok () := by
  refine attachable_eq_ok_iff.mpr ⟨hchild, hroot, hne, ?_⟩
  rw [ForestWith.ancestors_of_parent_eq_none htop]
  exact List.not_mem_nil

section Filling

variable (hroot : base.root < base.nodes.size) (hmade : Made d d' child)

include hroot hmade

/-- A new node on top can be attached to the container that was begun before it. -/
theorem Begun.attachable {kind : Shape} (h : Begun base top kind d) :
    d'.attachable top child = .ok () := by
  refine attachable_of_parent_eq_none (h.extend hmade.ext).made.parent_id hmade.parent_id ?_ ?_
  · exact hmade.ne_root (h.root_lt hroot)
  · exact Nat.ne_of_gt (Nat.lt_of_lt_of_le h.made.id_lt hmade.le_id)

omit hroot in
/-- The container has taken the node. -/
theorem Begun.taken {kind : Shape} {d'' : Document} (h : Begun base top kind d)
    (hsize : d''.nodes.size = d'.nodes.size) (hsame : d''.root = d'.root)
    (hrecord : ∀ x, x < base.nodes.size → d''.record x = d'.record x)
    (hparent : d''.parent top = none) (hshape : d''.shape top = kind)
    (hmem : ∀ x ∈ d''.children top, x ∈ d'.children top ∨ x = child) :
    Begun base top kind d'' := by
  have h' := h.extend hmade.ext
  refine ⟨⟨⟨?_, ?_, ?_⟩, h.made.le_id, ?_, hparent⟩, hshape, ?_⟩
  · rw [hsize]
    exact h'.made.ext.size_le
  · rw [hsame, h'.made.ext.root_eq]
  · intro x hx
    rw [hrecord x hx, h'.made.ext.record_eq x hx]
  · rw [hsize]
    exact h'.made.id_lt
  · intro x hx
    rw [hsize]
    rcases hmem x hx with hx | rfl
    · exact h'.of_mem_children x hx
    · exact ⟨Nat.le_trans h.made.ext.size_le hmade.le_id, hmade.id_lt⟩

/-- An array that was begun takes the next element. -/
theorem Begun.exists_pushElement (h : Begun base top .array d) :
    ∃ d'', d'.pushElement top child = .ok d'' ∧ Begun base top .array d'' := by
  have h' := h.extend hmade.ext
  have htop : ∀ x, x < base.nodes.size → x ≠ top := fun x hx =>
    Nat.ne_of_lt (Nat.lt_of_lt_of_le hx h.made.le_id)
  have hchild : ∀ x, x < d.nodes.size → x ≠ child := fun x hx =>
    Nat.ne_of_lt (Nat.lt_of_lt_of_le hx hmade.le_id)
  have hshape := h'.shape_top
  cases hc : d'.content top with
  | value s => simp [shape, hc, Content.shape] at hshape
  | object ms => simp [shape, hc, Content.shape] at hshape
  | array items =>
    refine ⟨d'.linkElement top items items.length child, ?_, h.taken hmade size_linkElement
      root_linkElement ?_ ?_ ?_ ?_⟩
    · rw [pushElement, hc]
      simp only [insertElement, hc, Nat.lt_irrefl, if_false, h.attachable hroot hmade]
      rfl
    · intro x hx
      exact record_linkElement_of_ne (htop x hx)
        (hchild x (Nat.lt_of_lt_of_le hx h.made.ext.size_le))
    · rw [parent_linkElement hmade.id_lt, if_neg (hchild top h.made.id_lt), h'.made.parent_id]
    · rw [shape, content_linkElement h'.made.id_lt, if_pos rfl]
      rfl
    · intro x hx
      rw [children, content_linkElement h'.made.id_lt, if_pos rfl,
        List.insertIdx_length_self] at hx
      rw [children, hc]
      simpa [Content.children] using hx

/-- An object that was begun takes the next member, or replaces one. -/
theorem Begun.exists_insertField (h : Begun base top .object d) (name : String) :
    ∃ r, d'.insertField top name child = .ok r ∧ Begun base top .object r.1 := by
  have h' := h.extend hmade.ext
  have htop : ∀ x, x < base.nodes.size → x ≠ top := fun x hx =>
    Nat.ne_of_lt (Nat.lt_of_lt_of_le hx h.made.le_id)
  have hchild : ∀ x, x < d.nodes.size → x ≠ child := fun x hx =>
    Nat.ne_of_lt (Nat.lt_of_lt_of_le hx hmade.le_id)
  have hshape := h'.shape_top
  cases hc : d'.content top with
  | value s => simp [shape, hc, Content.shape] at hshape
  | array items => simp [shape, hc, Content.shape] at hshape
  | object ms =>
    -- A member that is replaced is new as well.
    have hold : ∀ x, Members.find? ms name = some x →
        base.nodes.size ≤ x ∧ x < d'.nodes.size := fun x hx =>
      h'.of_mem_children x (ForestWith.mem_children_of_find? hc hx)
    refine ⟨(d'.linkMember top ms name child, Members.find? ms name), ?_,
      h.taken hmade size_linkMember root_linkMember ?_ ?_ ?_ ?_⟩
    · simp only [insertField, hc, h.attachable hroot hmade]
      rfl
    · intro x hx
      exact record_linkMember_of_ne (htop x hx)
        (hchild x (Nat.lt_of_lt_of_le hx h.made.ext.size_le))
        fun e => Nat.not_lt.mpr (hold x e).1 hx
    · rw [parent_linkMember hmade.id_lt fun x hx => (hold x hx).2,
        if_neg (hchild top h.made.id_lt), h'.made.parent_id, ite_self]
    · rw [shape, content_linkMember h'.made.id_lt, if_pos rfl]
      rfl
    · intro x hx
      rw [children, content_linkMember h'.made.id_lt, if_pos rfl] at hx
      rw [children, hc]
      exact (Members.mem_values_put hx).symm

end Filling

/-- An object that is the root takes a new node on top. -/
theorem Made.exists_insertField_root (h : Made (new (.object [])) d child) (name : String) :
    ∃ r, d.insertField d.root name child = .ok r := by
  have hroot : d.root = 0 := h.ext.root_eq
  have hlt : 0 < (new (.object [])).nodes.size := Nat.zero_lt_one
  have hc : d.content 0 = .object [] := (h.ext.content_eq hlt).trans rfl
  have hp : d.parent 0 = none := (h.ext.parent_eq hlt).trans rfl
  have hne : child ≠ 0 := hroot ▸ h.ne_root hlt
  refine ⟨(d.linkMember 0 [] name child, none), ?_⟩
  simp only [insertField, hroot, hc,
    attachable_of_parent_eq_none hp h.parent_id (h.ne_root hlt) hne]
  rfl

end Reshape.Document
