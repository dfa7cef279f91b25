import Reshape.Document.Text
import Reshape.Json.Value
import Reshape.Proofs.Document.Layout

/-!
# Documents that can arise

A document begins as a single node, as the reading of a text, as a plain value or as a copy of what
lies below a node, and goes on by edits and copies. Whatever is done to it, in whatever order and
with whatever success, its arena is a forest with the root on top of a tree.

## Main definitions

* `Document.Edit`, `Document.perform`: an edit as data, and what becomes of a document by it.
* `Document.Reachable`: the documents that can arise.
* `Document.Rooted`: the invariant of the steps.
* `Document.WellFormed`: what the invariant says about children, containers, names and the root.

## Main statements

* `Document.Rooted.perform`: an edit keeps the invariant.
* `Document.Reachable.rooted`: so does every run.
* `Document.Rooted.wellFormed`, `Document.WellFormed.rooted`: the invariant says just this.
* `Document.wellFormed_of_reachable`.
-/

namespace Reshape.Document

/-! ## Runs of edits -/

/-- An edit of a document, with the nodes that it names. -/
inductive Edit where
  | createObject
  | createArray
  | createValue (s : Scalar)
  | insertField (object : NodeId) (name : String) (child : NodeId)
  | removeField (object : NodeId) (name : String)
  | pushElement (array child : NodeId)
  | insertElement (array : NodeId) (i : Nat) (child : NodeId)
  | removeElement (array : NodeId) (i : Nat)
  | setValue (id : NodeId) (s : Scalar)
  | setRoot (id : NodeId)

/-- The nodes that an edit names. -/
def Edit.nodes : Edit → List NodeId
  | createObject | createArray | createValue _ => []
  | insertField object _ child => [object, child]
  | removeField object _ => [object]
  | pushElement array child => [array, child]
  | insertElement array _ child => [array, child]
  | removeElement array _ => [array]
  | setValue id _ => [id]
  | setRoot id => [id]

/-- The document after an edit that succeeds. -/
def Edit.apply (d : Document) : Edit → Except EditError Document
  | createObject => .ok (d.alloc (.object [])).1
  | createArray => .ok (d.alloc (.array [])).1
  | createValue s => .ok (d.alloc (.value s)).1
  | insertField object name child => Prod.fst <$> d.insertField object name child
  | removeField object name => Prod.fst <$> d.removeField object name
  | pushElement array child => d.pushElement array child
  | insertElement array i child => d.insertElement array i child
  | removeElement array i => Prod.fst <$> d.removeElement array i
  | setValue id s => d.setValue id s
  | setRoot id => d.setRoot id

/-- The document after an edit, successful or not. -/
def perform (d : Document) (e : Edit) : Document :=
  match e.apply d with
  | .ok d' => d'
  | .error _ => d

/-- The documents that can arise: from the constructors, from texts and plain values and as copies,
by edits that name nodes of the document and by copies of nodes of any document. -/
inductive Reachable : Document → Prop
  | object : Reachable (new (.object []))
  | array : Reachable (new (.array []))
  | value (s : Scalar) : Reachable (new (.value s))
  | parse {text : String} {d : Document} : parse text = .ok d → Reachable d
  | ofValue {v : Json.Value} : v.NamesNodup → Reachable (ofValue v)
  | copyOf {d : Document} {id : NodeId} :
      Reachable d → id < d.nodes.size → Reachable (d.copyOf id)
  | perform {d : Document} {e : Edit} :
      Reachable d → (∀ id ∈ e.nodes, id < d.nodes.size) → Reachable (d.perform e)
  | addCopy {d source : Document} {id : NodeId} : Reachable d → Reachable source →
      id < source.nodes.size → Reachable (d.addCopy (source.tree id)).1

/-! ## The invariant -/

/-- The arena is a forest, and the root is on top of one of its trees. -/
structure Rooted (d : Document) : Prop where
  forest : d.Forest
  root_lt : d.root < d.nodes.size
  parent_root : d.parent d.root = none

theorem forest_empty : empty.Forest where
  mem_links_iff p k c := by
    simp [content_of_size_le, parent_of_size_le, empty, Content.links]
  children_nodup p := by simp [children, content_of_size_le, empty, Content.children]
  names_nodup p := by
    rw [content_of_size_le (by simp [empty])]
    rintro _ ⟨⟩
  of_mem_loose := by simp
  name_eq_none c _ _ := name_of_size_le (by simp [empty])
  wellFounded := ⟨fun c => ⟨c, fun p hp => by
    rw [Contains, parent_of_size_le (by simp [empty])] at hp
    cases hp⟩⟩

/-- The root does not matter to the forest. -/
theorem ForestWith.withRoot {d : Document} {loose : List (Option String × NodeId)}
    (h : d.ForestWith loose) (id : NodeId) : { d with root := id }.ForestWith loose :=
  ⟨h.mem_links_iff, h.children_nodup, h.names_nodup, h.of_mem_loose, h.name_eq_none,
    h.wellFounded⟩

/-- What was laid out becomes the document below its top. -/
theorem Laid.rooted {d d' : Document} {id : NodeId} {t : Tree Scalar} (h : Laid [] d d' id t) :
    { d' with root := id }.Rooted ∧ { d' with root := id }.toTree = t := by
  refine ⟨⟨h.forest.withRoot id, h.id_lt, h.parent_id⟩, ?_⟩
  exact (h.forest.withRoot id).tree_eq h.id_lt (h.shows _ fun _ _ _ => rfl)

theorem rooted_ofReading (t : Tree Scalar) : (ofReading t).Rooted :=
  (laid_addReading t forest_empty).rooted.1

/-- A reading shows the tree in which repeated names are resolved. -/
theorem toTree_ofReading (t : Tree Scalar) : (ofReading t).toTree = t.distinct :=
  (laid_addReading t forest_empty).rooted.2

theorem rooted_ofTree {t : Tree Scalar} (h : t.NamesNodup) : (ofTree t).Rooted :=
  (laid_addCopy h forest_empty).rooted.1

/-- A copy shows the tree that was copied. -/
theorem toTree_ofTree {t : Tree Scalar} (h : t.NamesNodup) : (ofTree t).toTree = t :=
  (laid_addCopy h forest_empty).rooted.2

theorem rooted_new {c : Content} (hc : c.links = []) : (new c).Rooted where
  forest := (forest_empty.alloc hc).withRoot 0
  root_lt := by simp [new]
  parent_root := rfl

/-! ## Edits keep the invariant -/

section perform

variable {d : Document}

theorem exists_of_map_eq_ok {ε α β : Type} {f : α → β} {x : Except ε α} {b : β}
    (h : f <$> x = .ok b) : ∃ a, x = .ok a ∧ f a = b := by
  cases x with
  | error e => cases h
  | ok a => exact ⟨a, rfl, Except.ok.inj h⟩

theorem Rooted.alloc (h : d.Rooted) {c : Content} (hc : c.links = []) : (d.alloc c).1.Rooted where
  forest := h.forest.alloc hc
  root_lt := by simpa using Nat.lt_succ_of_lt h.root_lt
  parent_root := by simpa using h.parent_root

theorem Rooted.insertField (h : d.Rooted) {object child : NodeId} {name : String}
    (hc : child < d.nodes.size) {r : Document × Option NodeId}
    (hr : d.insertField object name child = .ok r) : r.1.Rooted := by
  unfold Document.insertField at hr
  split at hr
  · next ms ho =>
    rcases ha : d.attachable object child with e | u
    · rw [ha] at hr
      cases hr
    · rw [ha] at hr
      cases hr
      obtain ⟨hfree, hroot, hne, hnot⟩ := attachable_eq_ok_iff.mp ha
      have hold : ∀ old, Members.find? ms name = some old → d.parent old = some object :=
        fun old hf => h.forest.parent_of_find? ho hf
      refine ⟨h.forest.linkMember ho hc hfree hne hnot, by simpa using h.root_lt, ?_⟩
      rw [root_linkMember, parent_linkMember hc fun old hf => lt_size_of_parent (hold old hf),
        if_neg (Ne.symm hroot), h.parent_root, ite_self]
  · cases hr

theorem Rooted.removeField (h : d.Rooted) {object : NodeId} {name : String}
    {r : Document × Option NodeId} (hr : d.removeField object name = .ok r) : r.1.Rooted := by
  unfold Document.removeField at hr
  split at hr
  · next ms ho =>
    split at hr
    · next old hf =>
      cases hr
      refine ⟨h.forest.removeMember ho hf, by simpa [detach] using h.root_lt, ?_⟩
      have hold : d.parent old = some object := h.forest.parent_of_find? ho hf
      change ((d.setContent object _).setPlace old none none).parent d.root = none
      rw [parent_setPlace (by simpa using lt_size_of_parent hold), parent_setContent,
        h.parent_root, ite_self]
    · cases hr
      exact h
  · cases hr

theorem Rooted.insertElement (h : d.Rooted) {array child : NodeId} {i : Nat}
    (hc : child < d.nodes.size) {d' : Document} (hr : d.insertElement array i child = .ok d') :
    d'.Rooted := by
  unfold Document.insertElement at hr
  split at hr
  · next items ha =>
    split at hr
    · cases hr
    · next hi =>
      rcases hat : d.attachable array child with e | u
      · rw [hat] at hr
        cases hr
      · rw [hat] at hr
        cases hr
        obtain ⟨hfree, hroot, hne, hnot⟩ := attachable_eq_ok_iff.mp hat
        refine ⟨h.forest.linkElement ha (Nat.not_lt.mp hi) hc hfree hne hnot,
          by simpa using h.root_lt, ?_⟩
        rw [root_linkElement, parent_linkElement hc, if_neg (Ne.symm hroot), h.parent_root]
  · cases hr

theorem Rooted.pushElement (h : d.Rooted) {array child : NodeId} (hc : child < d.nodes.size)
    {d' : Document} (hr : d.pushElement array child = .ok d') : d'.Rooted := by
  unfold Document.pushElement at hr
  split at hr
  · exact h.insertElement hc hr
  · cases hr

theorem Rooted.removeElement (h : d.Rooted) {array : NodeId} {i : Nat} {r : Document × NodeId}
    (hr : d.removeElement array i = .ok r) : r.1.Rooted := by
  unfold Document.removeElement at hr
  split at hr
  · next items ha =>
    split at hr
    · next old hi =>
      cases hr
      refine ⟨h.forest.removeItem ha hi, by simpa using h.root_lt, ?_⟩
      have hold : d.parent old = some array := by
        refine h.forest.mem_children_iff.mp ?_
        rw [children, ha]
        exact List.mem_of_getElem? hi
      change ((d.setContent array _).setParent old none).parent d.root = none
      rw [parent_setParent (by simpa using lt_size_of_parent hold), parent_setContent,
        h.parent_root, ite_self]
    · cases hr
  · cases hr

theorem Rooted.setValue (h : d.Rooted) {id : NodeId} {s : Scalar} (hid : id < d.nodes.size)
    {d' : Document} (hr : d.setValue id s = .ok d') : d'.Rooted := by
  unfold Document.setValue at hr
  split at hr
  · next old ho =>
    cases hr
    -- A value lists nothing, whichever it is.
    have hlinks : ∀ k c, (k, c) ∈ (Content.value s).links ↔
        d.parent c = some id ∧ d.name c = k := by
      intro k c
      rw [← h.forest.mem_links_iff, ho]
      rfl
    refine ⟨h.forest.relink id (fun q hq => ?_) (fun c _ _ => ?_) (fun k c => ?_) ?_ ?_
      (fun c hc hc' => ?_) (fun c hc hc' => ?_), by simpa using h.root_lt,
      by simpa using h.parent_root⟩
    · rw [content_setContent hid, if_neg hq]
    · exact ⟨parent_setContent _, name_setContent _⟩
    · rw [content_setContent hid, if_pos rfl, parent_setContent, name_setContent, hlinks]
    · rw [children, content_setContent hid, if_pos rfl]
      exact List.nodup_nil
    · rw [content_setContent hid, if_pos rfl]
      rintro _ ⟨⟩
    · rw [parent_setContent] at hc
      exact absurd hc hc'
    · rw [parent_setContent] at hc'
      exact absurd hc hc'
  · cases hr

theorem Rooted.setRoot (h : d.Rooted) {id : NodeId} (hid : id < d.nodes.size) {d' : Document}
    (hr : d.setRoot id = .ok d') : d'.Rooted := by
  unfold Document.setRoot at hr
  split at hr
  · cases hr
  · next hn =>
    cases hr
    refine ⟨h.forest.withRoot id, hid, ?_⟩
    by_cases he : id = d.root
    · rw [he]
      exact h.parent_root
    · exact (by simpa [he] using hn : d.parent id = none)

/-- An edit that names nodes of the document keeps the invariant, whether it succeeds or not. -/
theorem Rooted.perform (h : d.Rooted) {e : Edit} (he : ∀ id ∈ e.nodes, id < d.nodes.size) :
    (d.perform e).Rooted := by
  unfold Document.perform
  split
  · next d' hd =>
    cases e with
    | createObject => cases hd; exact h.alloc rfl
    | createArray => cases hd; exact h.alloc rfl
    | createValue s => cases hd; exact h.alloc rfl
    | insertField object name child =>
      obtain ⟨r, hr, rfl⟩ := exists_of_map_eq_ok hd
      exact h.insertField (he child (by simp [Edit.nodes])) hr
    | removeField object name =>
      obtain ⟨r, hr, rfl⟩ := exists_of_map_eq_ok hd
      exact h.removeField hr
    | pushElement array child => exact h.pushElement (he child (by simp [Edit.nodes])) hd
    | insertElement array i child => exact h.insertElement (he child (by simp [Edit.nodes])) hd
    | removeElement array i =>
      obtain ⟨r, hr, rfl⟩ := exists_of_map_eq_ok hd
      exact h.removeElement hr
    | setValue id s => exact h.setValue (he id (by simp [Edit.nodes])) hd
    | setRoot id => exact h.setRoot (he id (by simp [Edit.nodes])) hd
  · exact h

end perform

/-! ## Runs keep the invariant -/

/-- A forest with further nodes keeps the invariant. -/
theorem Rooted.extend {d d' : Document} (h : d.Rooted) (hext : d.Extends d') (hf : d'.Forest) :
    d'.Rooted := by
  refine ⟨hf, ?_, ?_⟩
  · rw [hext.root_eq]
    exact Nat.lt_of_lt_of_le h.root_lt hext.size_le
  · rw [hext.root_eq, hext.parent_eq h.root_lt, h.parent_root]

/-- A copy of what lies below a node of any document keeps the invariant. -/
theorem Rooted.addCopy {d source : Document} (h : d.Rooted) (hs : source.Rooted) {id : NodeId}
    (hid : id < source.nodes.size) : (d.addCopy (source.tree id)).1.Rooted := by
  have hl := laid_addCopy (hs.forest.namesNodup_tree hid) h.forest
  exact h.extend hl.ext hl.forest

theorem rooted_of_parse {text : String} {d : Document} (h : parse text = .ok d) : d.Rooted := by
  rw [parse, parseChars] at h
  split at h
  · cases h
    exact rooted_ofReading _
  · cases h

theorem Reachable.rooted {d : Document} (h : Reachable d) : d.Rooted := by
  induction h with
  | object => exact rooted_new rfl
  | array => exact rooted_new rfl
  | value s => exact rooted_new rfl
  | parse h => exact rooted_of_parse h
  | ofValue hv => exact rooted_ofTree (Tree.namesNodup_map _ hv)
  | copyOf _ hid ih => exact rooted_ofTree (ih.forest.namesNodup_tree hid)
  | perform _ he ih => exact ih.perform he
  | addCopy _ _ hid ihd ihs => exact ihd.addCopy ihs hid

/-! ## What the invariant says -/

/-- The node some steps up, if there is one. -/
def climb? (d : Document) : Nat → NodeId → Option NodeId
  | 0, id => some id
  | n + 1, id =>
    match d.parent id with
    | some p => d.climb? n p
    | none => none

/-- What holds of the children, the containers, the names and the root of every document. -/
structure WellFormed (d : Document) : Prop where
  /-- Containers list nodes of the arena. -/
  child_lt : ∀ p c, c ∈ d.children p → c < d.nodes.size
  /-- Containers and children agree about each other. -/
  mem_children_iff : ∀ p c, c ∈ d.children p ↔ d.parent c = some p
  /-- No child is listed twice. -/
  children_nodup : ∀ p, (d.children p).Nodup
  /-- An object has one member of each name. -/
  names_nodup : ∀ p ms, d.content p = .object ms → (Members.names ms).Nodup
  /-- The names are those that the objects list. -/
  name_eq_some_iff : ∀ c k, d.name c = some k ↔
    ∃ p ms, d.parent c = some p ∧ d.content p = .object ms ∧ Members.find? ms k = some c
  name_eq_none : ∀ c, d.parent c = none → d.name c = none
  root_lt : d.root < d.nodes.size
  parent_root : d.parent d.root = none
  /-- Walking up ends at a node without a container. -/
  climb : ∀ c, ∃ n top, d.climb? n c = some top ∧ d.parent top = none
  /-- The containers around a node are the nearest one and those around it, without a bound. -/
  ancestors_eq : ∀ c, d.ancestors c =
    match d.parent c with
    | none => []
    | some p => p :: d.ancestors p
  top_eq : ∀ c, d.top c =
    match d.parent c with
    | none => c
    | some p => d.top p
  /-- A path goes on as long as there is a key. -/
  path_eq : ∀ c, d.path c =
    match d.key c, d.parent c with
    | none, _ => []
    | some k, none => [k]
    | some k, some p => d.path p ++ [k]

namespace ForestWith

variable {d : Document} (h : d.Forest)
include h

theorem name_eq_some_iff {c : NodeId} {k : String} :
    d.name c = some k ↔
      ∃ p ms, d.parent c = some p ∧ d.content p = .object ms ∧ Members.find? ms k = some c := by
  refine ⟨?_, ?_⟩
  · intro hk
    have hp : d.parent c ≠ none := by
      intro hp
      rw [h.name_eq_none c hp (by simp)] at hk
      cases hk
    obtain ⟨p, hp⟩ := Option.ne_none_iff_exists'.mp hp
    have hl := (h.mem_links_iff p (some k) c).mpr ⟨hp, hk⟩
    rcases hc : d.content p with s | items | ms
    · rw [hc] at hl
      cases hl
    · rw [hc, Content.mem_links_array] at hl
      cases hl.1
    · rw [hc, Content.mem_links_object] at hl
      obtain ⟨_, ⟨⟩, hm⟩ := hl
      exact ⟨p, ms, hp, hc, (Members.find?_eq_some_iff (h.names_nodup p ms hc)).mpr hm⟩
  · rintro ⟨p, ms, hp, hc, hf⟩
    have hl : (some k, c) ∈ (d.content p).links := by
      rw [hc, Content.mem_links_object]
      exact ⟨k, rfl, Members.mem_of_find?_eq_some hf⟩
    exact ((h.mem_links_iff p (some k) c).mp hl).2

theorem exists_climb (c : NodeId) : ∃ n top, d.climb? n c = some top ∧ d.parent top = none := by
  induction c using h.wellFounded.induction with
  | h c ih =>
    rcases hp : d.parent c with _ | p
    · exact ⟨0, c, rfl, hp⟩
    · obtain ⟨n, top, hn, htop⟩ := ih p hp
      exact ⟨n + 1, top, by rw [climb?, hp]; exact hn, htop⟩

theorem top_eq (c : NodeId) : d.top c = (match d.parent c with
    | none => c
    | some p => d.top p) := by
  rw [top, h.ancestors_eq]
  rcases hp : d.parent c with _ | p
  · rfl
  · exact List.getLastD_cons

/-- A node has a key exactly if it has a container. -/
theorem key_eq_none_iff {c : NodeId} : d.key c = none ↔ d.parent c = none := by
  rw [key, Option.or_eq_none_iff, Option.map_eq_none_iff]
  refine ⟨fun ⟨hn, hi⟩ => ?_, fun hp => ⟨h.name_eq_none c hp (by simp), by rw [index?, hp]⟩⟩
  refine Option.eq_none_iff_forall_ne_some.mpr ?_
  intro p hp
  have hl := (h.mem_links_iff p none c).mpr ⟨hp, hn⟩
  rcases hc : d.content p with s | items | ms
  · rw [hc] at hl
    cases hl
  · rw [hc, Content.mem_links_array] at hl
    simp only [index?, hp, hc, List.idxOf?_eq_none_iff] at hi
    exact hi hl.2
  · rw [hc, Content.mem_links_object] at hl
    obtain ⟨_, hk, _⟩ := hl
    cases hk

theorem path_eq (c : NodeId) : d.path c = (match d.key c, d.parent c with
    | none, _ => []
    | some k, none => [k]
    | some k, some p => d.path p ++ [k]) := by
  have hkey := key_eq_none_iff h (c := c)
  rw [path, h.ancestors_eq]
  rcases hp : d.parent c with _ | p <;> rcases hk : d.key c with _ | k
  · simp [hk]
  · simp [hk, hp] at hkey
  · simp [hk, hp] at hkey
  · simp only [List.filterMap_cons, hk, List.reverse_cons, path]

end ForestWith

theorem Rooted.wellFormed {d : Document} (h : d.Rooted) : d.WellFormed where
  child_lt _ _ hc := h.forest.lt_size_of_mem_children hc
  mem_children_iff _ _ := h.forest.mem_children_iff
  children_nodup := h.forest.children_nodup
  names_nodup := h.forest.names_nodup
  name_eq_some_iff _ _ := ForestWith.name_eq_some_iff h.forest
  name_eq_none c hc := h.forest.name_eq_none c hc (by simp)
  root_lt := h.root_lt
  parent_root := h.parent_root
  climb := ForestWith.exists_climb h.forest
  ancestors_eq := h.forest.ancestors_eq
  top_eq := ForestWith.top_eq h.forest
  path_eq := ForestWith.path_eq h.forest

namespace WellFormed

variable {d : Document} (h : d.WellFormed)
include h

theorem wellFounded : WellFounded d.Contains := by
  have hclimb : ∀ n c top, d.climb? n c = some top → d.parent top = none → Acc d.Contains c := by
    intro n
    induction n with
    | zero =>
      rintro c top ⟨⟩ htop
      exact ⟨c, fun p hp => by simp [Contains, htop] at hp⟩
    | succ n ih =>
      intro c top hc htop
      refine ⟨c, fun p hp => ih p top ?_ htop⟩
      rwa [climb?, show d.parent c = some p from hp] at hc
  refine ⟨fun c => ?_⟩
  obtain ⟨n, top, hn, htop⟩ := h.climb c
  exact hclimb n c top hn htop

theorem mem_links_iff (p : NodeId) (k : Option String) (c : NodeId) :
    (k, c) ∈ (d.content p).links ↔ d.parent c = some p ∧ d.name c = k := by
  have hmem := h.mem_children_iff p c
  rw [children, Content.mem_children_iff] at hmem
  rw [← hmem]
  rcases hc : d.content p with s | items | ms
  · simp [Content.links]
  · have hname : d.parent c = some p → d.name c = none := by
      intro hp
      refine Option.eq_none_iff_forall_ne_some.mpr fun k hk => ?_
      obtain ⟨p', ms, hp', hms, -⟩ := (h.name_eq_some_iff c k).mp hk
      cases hp.symm.trans hp'
      cases hc.symm.trans hms
    rw [hc] at hmem
    simp only [Content.mem_links_array] at hmem ⊢
    grind
  · have hname : ∀ k, (k, c) ∈ ms → d.name c = some k := by
      intro k hk
      have hp : d.parent c = some p := by
        rw [hc] at hmem
        exact hmem.mp ⟨some k, Content.mem_links_object.mpr ⟨k, rfl, hk⟩⟩
      exact (h.name_eq_some_iff c k).mpr
        ⟨p, ms, hp, hc, (Members.find?_eq_some_iff (h.names_nodup p ms hc)).mpr hk⟩
    simp only [Content.mem_links_object]
    grind

/-- Whatever satisfies these conditions satisfies the invariant of the edits. -/
theorem rooted : d.Rooted where
  forest := {
    mem_links_iff := h.mem_links_iff
    children_nodup := h.children_nodup
    names_nodup := h.names_nodup
    of_mem_loose := by simp
    name_eq_none := fun c hc _ => h.name_eq_none c hc
    wellFounded := h.wellFounded }
  root_lt := h.root_lt
  parent_root := h.parent_root

end WellFormed

/-- Every document that can arise is a well-formed forest. -/
theorem wellFormed_of_reachable {d : Document} (h : Reachable d) : d.WellFormed :=
  h.rooted.wellFormed

/-- An array becomes a member of an object, and the attempt to close a circle is refused. -/
theorem wellFormed_insertField_createArray :
    let d := ((new (.object [])).perform .createArray).perform (.insertField 0 "a" 1)
    d.parent 1 = some 0 ∧ d.perform (.pushElement 1 0) = d ∧
      (d.perform (.pushElement 1 0)).WellFormed := by
  refine ⟨rfl, rfl, wellFormed_of_reachable ?_⟩
  refine .perform (.perform (.perform .object ?_) ?_) ?_ <;> decide

end Reshape.Document
