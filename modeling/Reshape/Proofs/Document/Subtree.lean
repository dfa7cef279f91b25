import Reshape.Proofs.Document.Forest
import Reshape.Proofs.Tree.Distinct

/-!
# The tree below a node

`Document.tree` follows the children down as many levels as the arena has nodes. Here the tree below
a node is described without such a bound, and in a forest the two agree.

## Main definitions

* `Document.Shows`: a tree is what lies below a node.

## Main statements

* `Document.Shows.unique`: only one tree lies below a node.
* `ForestWith.shows_tree`: in a forest it is `Document.tree`.
-/

namespace Reshape.Document

variable {d d' : Document}

mutual

/-- The tree is what lies below the node. -/
def Shows (d : Document) (id : NodeId) : Tree Scalar → Prop
  | .leaf s => d.content id = .value s
  | .array ts => ∃ ids, d.content id = .array ids ∧ ShowsItems d ids ts
  | .object ms => ∃ ids, d.content id = .object ids ∧ ShowsMembers d ids ms

/-- The trees are what lies below the elements. -/
def ShowsItems (d : Document) (ids : List NodeId) : List (Tree Scalar) → Prop
  | [] => ids = []
  | t :: ts => ∃ id rest, ids = id :: rest ∧ Shows d id t ∧ ShowsItems d rest ts

/-- The named trees are what lies below the members, in the same order. -/
def ShowsMembers (d : Document) (ids : Members NodeId) : List (String × Tree Scalar) → Prop
  | [] => ids = []
  | (name, t) :: ms =>
    ∃ id rest, ids = (name, id) :: rest ∧ Shows d id t ∧ ShowsMembers d rest ms

end

/-! ## Elements and members -/

theorem showsItems_nil : ShowsItems d [] [] := rfl

theorem showsItems_cons {id : NodeId} {ids : List NodeId} {t : Tree Scalar}
    {ts : List (Tree Scalar)} (ht : Shows d id t) (hts : ShowsItems d ids ts) :
    ShowsItems d (id :: ids) (t :: ts) :=
  ⟨id, ids, rfl, ht, hts⟩

theorem showsItems_map {f : NodeId → Tree Scalar} {ids : List NodeId}
    (h : ∀ id ∈ ids, Shows d id (f id)) : ShowsItems d ids (ids.map f) := by
  induction ids with
  | nil => exact showsItems_nil
  | cons id ids ih =>
    exact showsItems_cons (h id (by simp)) (ih fun i hi => h i (by simp [hi]))

theorem showsMembers_nil : ShowsMembers d [] [] := rfl

theorem showsMembers_cons {name : String} {id : NodeId} {ids : Members NodeId} {t : Tree Scalar}
    {ms : List (String × Tree Scalar)} (ht : Shows d id t) (hms : ShowsMembers d ids ms) :
    ShowsMembers d ((name, id) :: ids) ((name, t) :: ms) :=
  ⟨id, ids, rfl, ht, hms⟩

theorem showsMembers_map {f : NodeId → Tree Scalar} {ids : Members NodeId}
    (h : ∀ m ∈ ids, Shows d m.2 (f m.2)) :
    ShowsMembers d ids (ids.map fun m => (m.1, f m.2)) := by
  induction ids with
  | nil => exact showsMembers_nil
  | cons m ids ih =>
    exact showsMembers_cons (h m (by simp)) (ih fun i hi => h i (by simp [hi]))

/-- A put on both sides. -/
theorem ShowsMembers.put {ids : Members NodeId} {ms : List (String × Tree Scalar)}
    (h : ShowsMembers d ids ms) {id : NodeId} {t : Tree Scalar} (ht : Shows d id t)
    (name : String) : ShowsMembers d (ids.put name id) (Members.put ms name t) := by
  induction ms generalizing ids with
  | nil =>
    rw [show ids = [] from h]
    exact showsMembers_cons ht showsMembers_nil
  | cons m ms ih =>
    obtain ⟨i, rest, rfl, hi, hms⟩ := h
    by_cases hn : m.1 = name
    · simp only [Members.put, hn, if_true]
      exact showsMembers_cons ht hms
    · simp only [Members.put, hn, if_false]
      exact showsMembers_cons hi (ih hms)

theorem ShowsMembers.names_eq {ids : Members NodeId} {ms : List (String × Tree Scalar)}
    (h : ShowsMembers d ids ms) : ids.names = Members.names ms := by
  induction ms generalizing ids with
  | nil => rw [show ids = [] from h]; rfl
  | cons m ms ih =>
    obtain ⟨i, rest, rfl, -, hms⟩ := h
    rw [Members.names_cons, Members.names_cons, ih hms]

/-! ## One tree below a node -/

mutual

theorem Shows.unique {id : NodeId} : ∀ {t u : Tree Scalar}, Shows d id t → Shows d id u → t = u
  | .leaf s, u, ht, hu => by
    unfold Shows at ht
    cases u <;> simp_all [Shows]
  | .array ts, u, ⟨ids, hids, hts⟩, hu => by
    cases u with
    | array us =>
      obtain ⟨ids', hids', hus⟩ := hu
      cases hids.symm.trans hids'
      rw [ShowsItems.unique hts hus]
    | leaf | object => simp_all [Shows]
  | .object ms, u, ⟨ids, hids, hms⟩, hu => by
    cases u with
    | object us =>
      obtain ⟨ids', hids', hus⟩ := hu
      cases hids.symm.trans hids'
      rw [ShowsMembers.unique hms hus]
    | leaf | array => simp_all [Shows]

theorem ShowsItems.unique {ids : List NodeId} :
    ∀ {ts us : List (Tree Scalar)}, ShowsItems d ids ts → ShowsItems d ids us → ts = us
  | [], [], _, _ => rfl
  | [], _ :: _, ht, hu => by simp_all [ShowsItems]
  | _ :: _, [], ht, hu => by simp_all [ShowsItems]
  | t :: ts, u :: us, ⟨id, rest, he, ht, hts⟩, ⟨id', rest', he', hu, hus⟩ => by
    cases he.symm.trans he'
    rw [Shows.unique ht hu, ShowsItems.unique hts hus]

theorem ShowsMembers.unique {ids : Members NodeId} :
    ∀ {ms us : List (String × Tree Scalar)},
      ShowsMembers d ids ms → ShowsMembers d ids us → ms = us
  | [], [], _, _ => rfl
  | [], _ :: _, ht, hu => by simp_all [ShowsMembers]
  | _ :: _, [], ht, hu => by simp_all [ShowsMembers]
  | (n, t) :: ms, (n', u) :: us, ⟨id, rest, he, ht, hms⟩, ⟨id', rest', he', hu, hus⟩ => by
    cases he.symm.trans he'
    rw [Shows.unique ht hu, ShowsMembers.unique hms hus]

end

/-! ## The bound on the levels -/

namespace ForestWith

variable {loose : List (Option String × NodeId)}

/-- Below a node that is `k` levels deep there are fewer levels than nodes less `k`. -/
theorem shows_treeWithin (h : d.ForestWith loose) {fuel : Nat} {id : NodeId}
    (hid : id < d.nodes.size) (hf : d.nodes.size ≤ fuel + (d.ancestors id).length) :
    Shows d id (d.treeWithin fuel id) := by
  induction fuel generalizing id with
  | zero =>
    have := h.length_ancestors_lt hid
    omega
  | succ fuel ih =>
    have hchild : ∀ c ∈ d.children id, Shows d c (d.treeWithin fuel c) := by
      intro c hc
      have hl := h.length_ancestors_of_mem_children hc
      exact ih (h.lt_size_of_mem_children hc) (by omega)
    unfold treeWithin
    unfold children at hchild
    split
    · next s hs => exact hs
    · next items hi =>
      rw [hi] at hchild
      exact ⟨items, hi, showsItems_map hchild⟩
    · next ms hm =>
      rw [hm] at hchild
      exact ⟨ms, hm, showsMembers_map fun m hm => hchild m.2 (List.mem_map_of_mem hm)⟩

theorem shows_tree (h : d.ForestWith loose) {id : NodeId} (hid : id < d.nodes.size) :
    Shows d id (d.tree id) :=
  h.shows_treeWithin hid (Nat.le_add_right _ _)

/-- The tree below a node, told by what lies there. -/
theorem tree_eq (h : d.ForestWith loose) {id : NodeId} (hid : id < d.nodes.size)
    {t : Tree Scalar} (ht : Shows d id t) : d.tree id = t :=
  (h.shows_tree hid).unique ht

end ForestWith

/-! ## The tree of each kind of node -/

theorem tree_of_content_value {id : NodeId} {s : Scalar} (hc : d.content id = .value s) :
    d.tree id = .leaf s := by
  unfold tree
  rcases hn : d.nodes.size with _ | n
  · rw [content_of_size_le (by omega)] at hc
    cases hc
    rfl
  · rw [treeWithin, hc]

theorem tree_of_size_le {id : NodeId} (h : d.nodes.size ≤ id) : d.tree id = .leaf .null :=
  tree_of_content_value (content_of_size_le h)

namespace ForestWith

variable {loose : List (Option String × NodeId)} {id : NodeId}

theorem tree_of_content_array (h : d.ForestWith loose) {items : List NodeId}
    (hc : d.content id = .array items) : d.tree id = .array (items.map d.tree) := by
  have hitem : ∀ c ∈ items, c < d.nodes.size := fun c hm =>
    h.lt_size_of_mem_children (p := id) (by rw [children, hc]; exact hm)
  exact h.tree_eq (lt_size_of_content_array hc)
    ⟨items, hc, showsItems_map fun c hm => h.shows_tree (hitem c hm)⟩

theorem tree_of_content_object (h : d.ForestWith loose) {ms : Members NodeId}
    (hc : d.content id = .object ms) :
    d.tree id = .object (ms.map fun m => (m.1, d.tree m.2)) := by
  have hmember : ∀ m ∈ ms, m.2 < d.nodes.size := fun m hm =>
    h.lt_size_of_mem_children (p := id) (by rw [children, hc]; exact List.mem_map_of_mem hm)
  exact h.tree_eq (lt_size_of_content_object hc)
    ⟨ms, hc, showsMembers_map fun m hm => h.shows_tree (hmember m hm)⟩

/-- The members of the tree are the trees of the members. -/
theorem member?_tree (h : d.ForestWith loose) (id : NodeId) (name : String) :
    (d.tree id).member? name = (d.childByName? id name).map d.tree := by
  rcases hc : d.content id with s | items | ms
  · simp [tree_of_content_value hc, Tree.member?, childByName?, hc]
  · simp [h.tree_of_content_array hc, Tree.member?, childByName?, hc]
  · simp [h.tree_of_content_object hc, Tree.member?, childByName?, hc, Members.find?_map]

theorem leaf?_tree (h : d.ForestWith loose) (id : NodeId) : (d.tree id).leaf? = d.scalar? id := by
  rcases hc : d.content id with s | items | ms
  · simp [tree_of_content_value hc, Tree.leaf?, scalar?, hc]
  · simp [h.tree_of_content_array hc, Tree.leaf?, scalar?, hc]
  · simp [h.tree_of_content_object hc, Tree.leaf?, scalar?, hc]

end ForestWith

/-! ## Names below a node -/

section NamesNodup

variable {loose : List (Option String × NodeId)}

mutual

/-- In a forest no object repeats a name. -/
theorem ForestWith.namesNodup_of_shows (h : d.ForestWith loose) :
    ∀ {t : Tree Scalar} {id : NodeId}, Shows d id t → t.NamesNodup
  | .leaf _, _, _ => trivial
  | .array _, _, ⟨_, _, hts⟩ => h.namesNodupItems_of_shows hts
  | .object _, id, ⟨ids, hids, hms⟩ =>
    ⟨hms.names_eq ▸ h.names_nodup id ids hids, h.namesNodupMembers_of_shows hms⟩

theorem ForestWith.namesNodupItems_of_shows (h : d.ForestWith loose) :
    ∀ {ts : List (Tree Scalar)} {ids : List NodeId},
      ShowsItems d ids ts → Tree.NamesNodupItems ts
  | [], _, _ => trivial
  | _ :: _, _, ⟨_, _, _, ht, hts⟩ => ⟨h.namesNodup_of_shows ht, h.namesNodupItems_of_shows hts⟩

theorem ForestWith.namesNodupMembers_of_shows (h : d.ForestWith loose) :
    ∀ {ms : List (String × Tree Scalar)} {ids : Members NodeId},
      ShowsMembers d ids ms → Tree.NamesNodupMembers ms
  | [], _, _ => trivial
  | _ :: _, _, ⟨_, _, _, ht, hms⟩ =>
    ⟨h.namesNodup_of_shows ht, h.namesNodupMembers_of_shows hms⟩

end

theorem ForestWith.namesNodup_tree (h : d.ForestWith loose) {id : NodeId}
    (hid : id < d.nodes.size) : (d.tree id).NamesNodup :=
  h.namesNodup_of_shows (h.shows_tree hid)

/-- The same for any number, in use or not. -/
theorem ForestWith.namesNodup_tree_any (h : d.ForestWith loose) (id : NodeId) :
    (d.tree id).NamesNodup := by
  by_cases hid : id < d.nodes.size
  · exact h.namesNodup_tree hid
  · rw [tree_of_size_le (Nat.not_lt.mp hid)]
    trivial

end NamesNodup

end Reshape.Document
