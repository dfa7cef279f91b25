import Reshape.Document.Build

/-!
# Records after a change

What each of the elementary changes does to the container, the name and the content of every node.
All later proofs about arenas go through these equations.
-/

namespace Reshape.Document

variable {d : Document} {id other : NodeId}

/-! ## Nodes that are not in use -/

theorem record_of_size_le (h : d.nodes.size ≤ id) : d.record id = ⟨none, none, .value .null⟩ := by
  simp [record, Array.getElem?_eq_none h]

theorem parent_of_size_le (h : d.nodes.size ≤ id) : d.parent id = none := by
  rw [parent, record_of_size_le h]

theorem name_of_size_le (h : d.nodes.size ≤ id) : d.name id = none := by
  rw [name, record_of_size_le h]

theorem content_of_size_le (h : d.nodes.size ≤ id) : d.content id = .value .null := by
  rw [content, record_of_size_le h]

theorem lt_size_of_parent {p : NodeId} (h : d.parent id = some p) : id < d.nodes.size := by
  refine Nat.lt_of_not_le ?_
  intro hn
  rw [parent_of_size_le hn] at h
  cases h

theorem lt_size_of_content_array {items : List NodeId} (h : d.content id = .array items) :
    id < d.nodes.size := by
  refine Nat.lt_of_not_le ?_
  intro hn
  rw [content_of_size_le hn] at h
  cases h

theorem lt_size_of_content_object {ms : Members NodeId} (h : d.content id = .object ms) :
    id < d.nodes.size := by
  refine Nat.lt_of_not_le ?_
  intro hn
  rw [content_of_size_le hn] at h
  cases h

/-! ## Size and root -/

@[simp] theorem size_setContent (c : Content) :
    (d.setContent id c).nodes.size = d.nodes.size := size_modify ..

@[simp] theorem size_setPlace (p : Option NodeId) (n : Option String) :
    (d.setPlace id p n).nodes.size = d.nodes.size := size_modify ..

@[simp] theorem size_setParent (p : Option NodeId) :
    (d.setParent id p).nodes.size = d.nodes.size := size_modify ..

@[simp] theorem size_setName (n : Option String) :
    (d.setName id n).nodes.size = d.nodes.size := size_modify ..

@[simp] theorem size_alloc (c : Content) : (d.alloc c).1.nodes.size = d.nodes.size + 1 := by
  simp [alloc]

@[simp] theorem alloc_snd (c : Content) : (d.alloc c).2 = d.nodes.size := rfl

@[simp] theorem root_modify (f : Record → Record) : (d.modify id f).root = d.root := rfl

@[simp] theorem root_setContent (c : Content) : (d.setContent id c).root = d.root := rfl

@[simp] theorem root_setPlace (p : Option NodeId) (n : Option String) :
    (d.setPlace id p n).root = d.root := rfl

@[simp] theorem root_setParent (p : Option NodeId) : (d.setParent id p).root = d.root := rfl

@[simp] theorem root_setName (n : Option String) : (d.setName id n).root = d.root := rfl

@[simp] theorem root_alloc (c : Content) : (d.alloc c).1.root = d.root := rfl

/-! ## One record changed -/

theorem record_modify_of_ne (h : other ≠ id) (f : Record → Record) :
    (d.modify id f).record other = d.record other := by
  simp [record, modify, Array.getElem?_modify, Ne.symm h]

/-- What a change leaves alone in every record, it leaves alone in the document. -/
theorem proj_record_modify {β : Type} (g : Record → β) {f : Record → Record}
    (hf : ∀ r, g (f r) = g r) : g ((d.modify id f).record other) = g (d.record other) := by
  by_cases h : id < d.nodes.size
  · rw [record_modify d id other f h]
    split
    · next e => rw [hf, e]
    · rfl
  · by_cases ho : other = id
    · subst ho
      rw [record_of_size_le (by simpa using h), record_of_size_le (by simpa using h)]
    · rw [record_modify_of_ne ho]

@[simp] theorem parent_setContent (c : Content) :
    (d.setContent id c).parent other = d.parent other :=
  proj_record_modify Record.parent fun _ => rfl

@[simp] theorem name_setContent (c : Content) : (d.setContent id c).name other = d.name other :=
  proj_record_modify Record.name fun _ => rfl

@[simp] theorem content_setPlace (p : Option NodeId) (n : Option String) :
    (d.setPlace id p n).content other = d.content other :=
  proj_record_modify Record.content fun _ => rfl

@[simp] theorem content_setParent (p : Option NodeId) :
    (d.setParent id p).content other = d.content other :=
  proj_record_modify Record.content fun _ => rfl

@[simp] theorem content_setName (n : Option String) :
    (d.setName id n).content other = d.content other :=
  proj_record_modify Record.content fun _ => rfl

@[simp] theorem name_setParent (p : Option NodeId) :
    (d.setParent id p).name other = d.name other :=
  proj_record_modify Record.name fun _ => rfl

@[simp] theorem parent_setName (n : Option String) :
    (d.setName id n).parent other = d.parent other :=
  proj_record_modify Record.parent fun _ => rfl

theorem content_setContent (h : id < d.nodes.size) (c : Content) :
    (d.setContent id c).content other = if other = id then c else d.content other := by
  rw [content, setContent, record_modify _ _ _ _ h, apply_ite Record.content, content]

theorem parent_setPlace (h : id < d.nodes.size) (p : Option NodeId) (n : Option String) :
    (d.setPlace id p n).parent other = if other = id then p else d.parent other := by
  rw [parent, setPlace, record_modify _ _ _ _ h, apply_ite Record.parent, parent]

theorem name_setPlace (h : id < d.nodes.size) (p : Option NodeId) (n : Option String) :
    (d.setPlace id p n).name other = if other = id then n else d.name other := by
  rw [name, setPlace, record_modify _ _ _ _ h, apply_ite Record.name, name]

theorem parent_setParent (h : id < d.nodes.size) (p : Option NodeId) :
    (d.setParent id p).parent other = if other = id then p else d.parent other := by
  rw [parent, setParent, record_modify _ _ _ _ h, apply_ite Record.parent, parent]

theorem name_setName (h : id < d.nodes.size) (n : Option String) :
    (d.setName id n).name other = if other = id then n else d.name other := by
  rw [name, setName, record_modify _ _ _ _ h, apply_ite Record.name, name]

/-! ## A new node -/

theorem record_alloc_eq (c : Content) :
    (d.alloc c).1.record id = if id = d.nodes.size then ⟨none, none, c⟩ else d.record id := by
  rcases Nat.lt_trichotomy id d.nodes.size with h | rfl | h
  · rw [record_alloc d c id h, if_neg (Nat.ne_of_lt h)]
  · rw [if_pos rfl]
    exact record_alloc_new d c
  · have hle : (d.alloc c).1.nodes.size ≤ id := by rw [size_alloc]; exact h
    rw [record_of_size_le hle, if_neg (Nat.ne_of_gt h), record_of_size_le (Nat.le_of_lt h)]

@[simp] theorem parent_alloc (c : Content) : (d.alloc c).1.parent id = d.parent id := by
  rw [parent, record_alloc_eq]
  split
  · next h => rw [parent_of_size_le (Nat.le_of_eq h.symm)]
  · rfl

@[simp] theorem name_alloc (c : Content) : (d.alloc c).1.name id = d.name id := by
  rw [name, record_alloc_eq]
  split
  · next h => rw [name_of_size_le (Nat.le_of_eq h.symm)]
  · rfl

theorem content_alloc (c : Content) :
    (d.alloc c).1.content id = if id = d.nodes.size then c else d.content id := by
  rw [content, record_alloc_eq, apply_ite Record.content, content]

/-! ## Several nodes placed in one container -/

section placeIn

variable {p : NodeId} {ids : List NodeId}

@[simp] theorem size_placeIn : (d.placeIn p ids).nodes.size = d.nodes.size := by
  induction ids generalizing d with
  | nil => rfl
  | cons i rest ih => exact ih.trans (size_setParent _)

@[simp] theorem root_placeIn : (d.placeIn p ids).root = d.root := by
  induction ids generalizing d with
  | nil => rfl
  | cons i rest ih => exact ih

@[simp] theorem content_placeIn : (d.placeIn p ids).content id = d.content id := by
  induction ids generalizing d with
  | nil => rfl
  | cons i rest ih => exact ih.trans (content_setParent _)

@[simp] theorem name_placeIn : (d.placeIn p ids).name id = d.name id := by
  induction ids generalizing d with
  | nil => rfl
  | cons i rest ih => exact ih.trans (name_setParent _)

theorem parent_placeIn (h : ∀ i ∈ ids, i < d.nodes.size) :
    (d.placeIn p ids).parent id = if id ∈ ids then some p else d.parent id := by
  induction ids generalizing d with
  | nil => rfl
  | cons i rest ih =>
    have hi : i < d.nodes.size := h i (by simp)
    have hrest : ∀ j ∈ rest, j < (d.setParent i (some p)).nodes.size := by
      intro j hj
      simpa using h j (by simp [hj])
    refine (ih hrest).trans ?_
    rw [parent_setParent hi]
    by_cases h₁ : id ∈ rest <;> by_cases h₂ : id = i <;> simp [h₁, h₂]

theorem record_placeIn_of_not_mem (h : id ∉ ids) : (d.placeIn p ids).record id = d.record id := by
  induction ids generalizing d with
  | nil => rfl
  | cons i rest ih =>
    rw [List.mem_cons, not_or] at h
    exact (ih h.2).trans (record_modify_of_ne h.1 _)

end placeIn

end Reshape.Document
