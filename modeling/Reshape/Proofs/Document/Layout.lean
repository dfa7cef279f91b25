import Reshape.Proofs.Document.Edit
import Reshape.Proofs.Document.Subtree
import Reshape.Proofs.Tree.Distinct

/-!
# Laying out a tree

Both ways of laying out a tree in an arena add nodes to a forest and leave a forest, change no node
that was there, and show the tree below the node that they return: a reading with repeated names
resolved, a copy as it is.

## Main definitions

* `Document.Extends`: an arena with further nodes.
* `Document.Laid`: what laying out a tree achieves.

## Main statements

* `Document.laid_addReading`, `Document.laid_addCopy`.
* `Document.toTree_ofReading`, `Document.toTree_ofTree`.
-/

namespace Reshape.Document

/-- The second arena has the nodes of the first, unchanged, and the same root. -/
structure Extends (d d' : Document) : Prop where
  size_le : d.nodes.size ≤ d'.nodes.size
  root_eq : d'.root = d.root
  record_eq : ∀ x, x < d.nodes.size → d'.record x = d.record x

namespace Extends

variable {d d' d'' : Document}

theorem refl (d : Document) : d.Extends d := ⟨Nat.le_refl _, rfl, fun _ _ => rfl⟩

theorem trans (h : d.Extends d') (h' : d'.Extends d'') : d.Extends d'' where
  size_le := Nat.le_trans h.size_le h'.size_le
  root_eq := h'.root_eq.trans h.root_eq
  record_eq x hx :=
    (h'.record_eq x (Nat.lt_of_lt_of_le hx h.size_le)).trans (h.record_eq x hx)

theorem content_eq (h : d.Extends d') {x : NodeId} (hx : x < d.nodes.size) :
    d'.content x = d.content x :=
  congrArg Record.content (h.record_eq x hx)

theorem parent_eq (h : d.Extends d') {x : NodeId} (hx : x < d.nodes.size) :
    d'.parent x = d.parent x :=
  congrArg Record.parent (h.record_eq x hx)

end Extends

theorem extends_alloc (d : Document) (c : Content) : d.Extends (d.alloc c).1 where
  size_le := by simp
  root_eq := rfl
  record_eq x hx := record_alloc d c x hx

/-- Placing later nodes changes none of the earlier ones. -/
theorem extends_placeIn {d d' : Document} (h : d.Extends d') {p : NodeId} {ids : List NodeId}
    (hids : ∀ x ∈ ids, d.nodes.size ≤ x) : d.Extends (d'.placeIn p ids) where
  size_le := by rw [size_placeIn]; exact h.size_le
  root_eq := by rw [root_placeIn, h.root_eq]
  record_eq x hx := by
    rw [record_placeIn_of_not_mem fun hm => Nat.not_lt.mpr (hids x hm) hx, h.record_eq x hx]

/-- Naming a later node changes none of the earlier ones. -/
theorem extends_setName {d d' : Document} (h : d.Extends d') {id : NodeId}
    (hid : d.nodes.size ≤ id) (k : Option String) : d.Extends (d'.setName id k) where
  size_le := by rw [size_setName]; exact h.size_le
  root_eq := h.root_eq
  record_eq x hx := by
    rw [setName, record_modify_of_ne (Nat.ne_of_lt (Nat.lt_of_lt_of_le hx hid)),
      h.record_eq x hx]

/-- The documents hold the same in the nodes from `lo` up to `hi`. -/
def Agree (lo hi : Nat) (d d' : Document) : Prop :=
  ∀ x, lo ≤ x → x < hi → d'.content x = d.content x

theorem Agree.mono {lo hi lo' hi' : Nat} {d d' : Document} (h : Agree lo hi d d') (hlo : lo ≤ lo')
    (hhi : hi' ≤ hi) : Agree lo' hi' d d' :=
  fun x hx hx' => h x (by omega) (by omega)

theorem Agree.trans {lo hi : Nat} {d d' d'' : Document} (h : Agree lo hi d d')
    (h' : Agree lo hi d' d'') : Agree lo hi d d'' :=
  fun x hx hx' => (h' x hx hx').trans (h x hx hx')

/-- What laying out the tree `t` after the nodes of `d` achieves, where `loose` are the nodes that
wait for a container: a forest that extends `d`, and a new node on top of the tree. What is below
that node stands in new nodes, whatever happens to the others. -/
structure Laid (loose : List (Option String × NodeId)) (d d' : Document) (id : NodeId)
    (t : Tree Scalar) : Prop where
  forest : d'.ForestWith loose
  ext : d.Extends d'
  le_id : d.nodes.size ≤ id
  id_lt : id < d'.nodes.size
  parent_id : d'.parent id = none
  shows : ∀ d'', Agree d.nodes.size d'.nodes.size d' d'' → Shows d'' id t

theorem laid_leaf {loose : List (Option String × NodeId)} {d : Document}
    (h : d.ForestWith loose) (s : Scalar) :
    Laid loose d (d.alloc (.value s)).1 d.nodes.size (.leaf s) where
  forest := h.alloc rfl
  ext := extends_alloc d _
  le_id := Nat.le_refl _
  id_lt := by simp
  parent_id := by rw [parent_alloc, parent_of_size_le (Nat.le_refl _)]
  shows d'' hd := by
    rw [Shows, hd _ (Nat.le_refl _) (by simp), content_alloc, if_pos rfl]

/-! ## Containers first -/

theorem record_linkElement_of_ne {d : Document} {array child x : NodeId} {items : List NodeId}
    {i : Nat} (ha : x ≠ array) (hc : x ≠ child) :
    (d.linkElement array items i child).record x = d.record x := by
  rw [linkElement, setParent, record_modify_of_ne hc, setContent, record_modify_of_ne ha]

theorem record_linkMember_of_ne {d : Document} {object child x : NodeId} {ms : Members NodeId}
    {name : String} (ho : x ≠ object) (hc : x ≠ child) (hx : ms.find? name ≠ some x) :
    (d.linkMember object ms name child).record x = d.record x := by
  rw [linkMember, setPlace, record_modify_of_ne hc]
  rcases h : ms.find? name with _ | old
  · rw [setContent, record_modify_of_ne ho]
  · have hne : x ≠ old := fun e => hx (by rw [h, e])
    simp only [detach, setPlace, record_modify_of_ne hne, setContent, record_modify_of_ne ho]

/-- What laying out elements achieves, for an array on top that listed `done`. -/
structure LaidItems (d : Document) (array : NodeId) (done : List NodeId) (d' : Document)
    (ts : List (Tree Scalar)) : Prop where
  forest : d'.Forest
  size_le : d.nodes.size ≤ d'.nodes.size
  root_eq : d'.root = d.root
  record_eq : ∀ x, x < d.nodes.size → x ≠ array → d'.record x = d.record x
  parent_eq : d'.parent array = none
  shows : ∃ ids, d'.content array = .array (done ++ ids) ∧
    ∀ d'', Agree d.nodes.size d'.nodes.size d' d'' → ShowsItems d'' ids ts

/-- What laying out members achieves, for an object on top that listed `done`. Members that are
replaced lose their place. -/
structure LaidMembers (d : Document) (object : NodeId) (done : Members NodeId) (d' : Document)
    (ms : List (String × Tree Scalar)) : Prop where
  forest : d'.Forest
  size_le : d.nodes.size ≤ d'.nodes.size
  root_eq : d'.root = d.root
  record_eq : ∀ x, x < d.nodes.size → x ≠ object → d.parent x ≠ some object →
    d'.record x = d.record x
  content_eq : ∀ x, x < d.nodes.size → x ≠ object → d'.content x = d.content x
  parent_eq : d'.parent object = none
  shows : ∃ ids, d'.content object = .object ids ∧
    ∀ d'', Agree d.nodes.size d'.nodes.size d' d'' → ∀ acc, ShowsMembers d'' done acc →
      ShowsMembers d'' ids (ms.foldl (fun acc m => Members.put acc m.1 m.2) acc)

section Reading

variable {d d₁ d' : Document} {id : NodeId} {t : Tree Scalar}

theorem LaidItems.nil {array : NodeId} {done : List NodeId} (h : d.Forest)
    (hc : d.content array = .array done) (hp : d.parent array = none) :
    LaidItems d array done d [] :=
  ⟨h, Nat.le_refl _, rfl, fun _ _ _ => rfl, hp,
    ⟨[], by rw [List.append_nil, hc], fun _ _ => showsItems_nil⟩⟩

/-- Nodes that are made in between do not matter to the elements. -/
theorem LaidItems.skip {array : NodeId} {done : List NodeId} {ts : List (Tree Scalar)}
    (hext : d.Extends d₁) (hi : LaidItems d₁ array done d' ts) : LaidItems d array done d' ts where
  forest := hi.forest
  size_le := Nat.le_trans hext.size_le hi.size_le
  root_eq := hi.root_eq.trans hext.root_eq
  record_eq x hx hxa := by
    rw [hi.record_eq x (Nat.lt_of_lt_of_le hx hext.size_le) hxa, hext.record_eq x hx]
  parent_eq := hi.parent_eq
  shows := by
    obtain ⟨ids, hids, hs⟩ := hi.shows
    exact ⟨ids, hids, fun d'' hd => hs d'' (hd.mono hext.size_le (Nat.le_refl _))⟩

/-- A new array that was filled is laid out. -/
theorem LaidItems.laid {ts : List (Tree Scalar)}
    (hi : LaidItems (d.alloc (.array [])).1 d.nodes.size [] d' ts) :
    Laid [] d d' d.nodes.size (.array ts) where
  forest := hi.forest
  ext := {
    size_le := by have := hi.size_le; rw [size_alloc] at this; omega
    root_eq := hi.root_eq
    record_eq := by
      intro x hx
      rw [hi.record_eq x (by rw [size_alloc]; omega) (Nat.ne_of_lt hx), record_alloc d _ x hx] }
  le_id := Nat.le_refl _
  id_lt := by have := hi.size_le; rw [size_alloc] at this; exact this
  parent_id := hi.parent_eq
  shows d'' hd := by
    obtain ⟨ids, hids, hs⟩ := hi.shows
    have hsize := hi.size_le
    rw [size_alloc] at hsize
    refine ⟨ids, ?_, hs d'' (hd.mono (by simp) (Nat.le_refl _))⟩
    rw [hd _ (Nat.le_refl _) hsize, hids, List.nil_append]

/-- A tree that was laid out becomes the next element. -/
theorem LaidItems.cons {array : NodeId} {done : List NodeId} {ts : List (Tree Scalar)}
    (ht : Laid [] d d₁ id t) (ha : array < d.nodes.size)
    (hi : LaidItems (d₁.linkElement array done done.length id) array (done ++ [id]) d' ts) :
    LaidItems d array done d' (t :: ts) := by
  have hle := ht.le_id
  have hsize := hi.size_le
  rw [size_linkElement] at hsize
  have hsame : ∀ x, x < d₁.nodes.size → x ≠ array → d'.content x = d₁.content x := by
    intro x hx hxa
    rw [content, hi.record_eq x (by simpa using hx) hxa, ← content,
      content_linkElement (Nat.lt_of_lt_of_le ha ht.ext.size_le), if_neg hxa]
  refine ⟨hi.forest, Nat.le_trans ht.ext.size_le hsize, hi.root_eq.trans ht.ext.root_eq,
    ?_, hi.parent_eq, ?_⟩
  · intro x hx hxa
    have hx₁ := Nat.lt_of_lt_of_le hx ht.ext.size_le
    rw [hi.record_eq x (by simpa using hx₁) hxa, record_linkElement_of_ne hxa
      (Nat.ne_of_lt (Nat.lt_of_lt_of_le hx hle)), ht.ext.record_eq x hx]
  · obtain ⟨ids, hids, hs⟩ := hi.shows
    refine ⟨id :: ids, by simpa using hids, fun d'' hd => showsItems_cons ?_ ?_⟩
    · refine ht.shows d'' ?_
      intro x hx hx'
      rw [hd x hx (Nat.lt_of_lt_of_le hx' hsize),
        hsame x hx' (Nat.ne_of_gt (Nat.lt_of_lt_of_le ha hx))]
    · exact hs d'' (hd.mono (by simpa using ht.ext.size_le) (Nat.le_refl _))

theorem LaidMembers.nil {object : NodeId} {done : Members NodeId} (h : d.Forest)
    (hc : d.content object = .object done) (hp : d.parent object = none) :
    LaidMembers d object done d [] :=
  ⟨h, Nat.le_refl _, rfl, fun _ _ _ _ => rfl, fun _ _ _ => rfl, hp,
    ⟨done, hc, fun _ _ _ hacc => hacc⟩⟩

/-- Nodes that are made in between do not matter to the members. -/
theorem LaidMembers.skip {object : NodeId} {done : Members NodeId}
    {ms : List (String × Tree Scalar)} (hext : d.Extends d₁)
    (hi : LaidMembers d₁ object done d' ms) : LaidMembers d object done d' ms where
  forest := hi.forest
  size_le := Nat.le_trans hext.size_le hi.size_le
  root_eq := hi.root_eq.trans hext.root_eq
  record_eq x hx hxo hxp := by
    rw [hi.record_eq x (Nat.lt_of_lt_of_le hx hext.size_le) hxo
      (by rw [hext.parent_eq hx]; exact hxp), hext.record_eq x hx]
  content_eq x hx hxo := by
    rw [hi.content_eq x (Nat.lt_of_lt_of_le hx hext.size_le) hxo, hext.content_eq hx]
  parent_eq := hi.parent_eq
  shows := by
    obtain ⟨ids, hids, hs⟩ := hi.shows
    exact ⟨ids, hids, fun d'' hd => hs d'' (hd.mono hext.size_le (Nat.le_refl _))⟩

/-- A new object that was filled is laid out. -/
theorem LaidMembers.laid {ms : List (String × Tree Scalar)} (h : d.Forest)
    (hi : LaidMembers (d.alloc (.object [])).1 d.nodes.size [] d' ms) :
    Laid [] d d' d.nodes.size (.object (Members.ofList ms)) where
  forest := hi.forest
  ext := {
    size_le := by have := hi.size_le; rw [size_alloc] at this; omega
    root_eq := hi.root_eq
    record_eq := by
      intro x hx
      have hpx : (d.alloc (.object [])).1.parent x ≠ some d.nodes.size := by
        intro e
        rw [parent_alloc] at e
        exact Nat.lt_irrefl _ (h.parent_lt_size e)
      rw [hi.record_eq x (by rw [size_alloc]; omega) (Nat.ne_of_lt hx) hpx,
        record_alloc d _ x hx] }
  le_id := Nat.le_refl _
  id_lt := by have := hi.size_le; rw [size_alloc] at this; exact this
  parent_id := hi.parent_eq
  shows d'' hd := by
    obtain ⟨ids, hids, hs⟩ := hi.shows
    have hsize := hi.size_le
    rw [size_alloc] at hsize
    refine ⟨ids, ?_, hs d'' (hd.mono (by simp) (Nat.le_refl _)) [] showsMembers_nil⟩
    rw [hd _ (Nat.le_refl _) hsize, hids]

/-- A tree that was laid out becomes the next member, or replaces one. -/
theorem LaidMembers.cons {object : NodeId} {done : Members NodeId} {name : String}
    {ms : List (String × Tree Scalar)} (ht : Laid [] d d₁ id t)
    (ho : d₁.content object = .object done) (hlt : object < d.nodes.size)
    (hi : LaidMembers (d₁.linkMember object done name id) object (done.put name id) d' ms) :
    LaidMembers d object done d' ((name, t) :: ms) := by
  have hle := ht.le_id
  have hsize := hi.size_le
  rw [size_linkMember] at hsize
  have hlt₁ := Nat.lt_of_lt_of_le hlt ht.ext.size_le
  have hold : ∀ x, done.find? name = some x → d₁.parent x = some object := fun x hx =>
    ht.forest.parent_of_find? ho hx
  have hsame : ∀ x, x < d₁.nodes.size → x ≠ object → d'.content x = d₁.content x := by
    intro x hx hxo
    rw [hi.content_eq x (by simpa using hx) hxo, content_linkMember hlt₁, if_neg hxo]
  refine ⟨hi.forest, Nat.le_trans ht.ext.size_le hsize, hi.root_eq.trans ?_,
    ?_, ?_, hi.parent_eq, ?_⟩
  · rw [root_linkMember, ht.ext.root_eq]
  · intro x hx hxo hxp
    have hx₁ := Nat.lt_of_lt_of_le hx ht.ext.size_le
    have hrec : (d₁.linkMember object done name id).record x = d.record x := by
      rw [record_linkMember_of_ne hxo (Nat.ne_of_lt (Nat.lt_of_lt_of_le hx hle)) fun e =>
        hxp ((ht.ext.parent_eq hx).symm.trans (hold x e)), ht.ext.record_eq x hx]
    rw [hi.record_eq x (by simpa using hx₁) hxo (by rw [parent, hrec]; exact hxp), hrec]
  · intro x hx hxo
    rw [hsame x (Nat.lt_of_lt_of_le hx ht.ext.size_le) hxo, ht.ext.content_eq hx]
  · obtain ⟨ids, hids, hs⟩ := hi.shows
    refine ⟨ids, hids, ?_⟩
    intro d'' hd acc hacc
    refine hs d'' (hd.mono (by simpa using ht.ext.size_le) (Nat.le_refl _)) _ (hacc.put ?_ name)
    refine ht.shows d'' ?_
    intro x hx hx'
    rw [hd x hx (Nat.lt_of_lt_of_le hx' hsize),
      hsame x hx' (Nat.ne_of_gt (Nat.lt_of_lt_of_le hlt hx))]

end Reading

theorem addReading_array (d : Document) (ts : List (Tree Scalar)) :
    addReading d (.array ts) =
      (addReadItems (d.alloc (.array [])).1 d.nodes.size [] ts, d.nodes.size) := by
  unfold addReading
  rfl

theorem addReading_object (d : Document) (ms : List (String × Tree Scalar)) :
    addReading d (.object ms) =
      (addReadMembers (d.alloc (.object [])).1 d.nodes.size [] ms, d.nodes.size) := by
  unfold addReading
  rfl

mutual

/-- Reading leaves a forest that shows the tree with repeated names resolved. -/
theorem laid_addReading : ∀ (t : Tree Scalar) {d : Document}, d.Forest →
    Laid [] d (addReading d t).1 (addReading d t).2 t.distinct
  | .leaf s, d, h => laid_leaf h s
  | .array ts, d, h => by
    rw [addReading_array]
    refine (laidItems_addReadItems ts (h.alloc (c := .array []) rfl) ?_ ?_).laid
    · rw [content_alloc, if_pos rfl]
    · rw [parent_alloc, parent_of_size_le (Nat.le_refl _)]
  | .object ms, d, h => by
    rw [addReading_object]
    refine (laidMembers_addReadMembers ms (h.alloc (c := .object []) rfl) ?_ ?_).laid h
    · rw [content_alloc, if_pos rfl]
    · rw [parent_alloc, parent_of_size_le (Nat.le_refl _)]

theorem laidItems_addReadItems : ∀ (ts : List (Tree Scalar)) {d : Document} {array : NodeId}
    {done : List NodeId}, d.Forest → d.content array = .array done → d.parent array = none →
    LaidItems d array done (addReadItems d array done ts) (Tree.distinctItems ts)
  | [], _, _, _, h, hc, hp => by
    unfold addReadItems
    exact .nil h hc hp
  | t :: ts, d, array, done, h, hc, hp => by
    have ht := laid_addReading t h
    have hlt := lt_size_of_content_array hc
    have hc₁ := (ht.ext.content_eq hlt).trans hc
    have hp₁ := (ht.ext.parent_eq hlt).trans hp
    have hne : array ≠ (addReading d t).2 := Nat.ne_of_lt (Nat.lt_of_lt_of_le hlt ht.le_id)
    have hf := Forest.linkElement ht.forest hc₁ (Nat.le_refl _) ht.id_lt ht.parent_id
      (Ne.symm hne) (by simp [ForestWith.ancestors_of_parent_eq_none hp₁])
    unfold addReadItems
    refine LaidItems.cons ht hlt (laidItems_addReadItems ts hf ?_ ?_)
    · rw [content_linkElement (lt_size_of_content_array hc₁), if_pos rfl,
        List.insertIdx_length_self]
    · rw [parent_linkElement ht.id_lt, if_neg hne, hp₁]

theorem laidMembers_addReadMembers : ∀ (ms : List (String × Tree Scalar)) {d : Document}
    {object : NodeId} {done : Members NodeId}, d.Forest → d.content object = .object done →
    d.parent object = none →
    LaidMembers d object done (addReadMembers d object done ms) (Tree.distinctMembers ms)
  | [], _, _, _, h, hc, hp => by
    unfold addReadMembers
    exact .nil h hc hp
  | (name, t) :: ms, d, object, done, h, hc, hp => by
    have ht := laid_addReading t h
    have hlt := lt_size_of_content_object hc
    have hc₁ := (ht.ext.content_eq hlt).trans hc
    have hp₁ := (ht.ext.parent_eq hlt).trans hp
    have hne : object ≠ (addReading d t).2 := Nat.ne_of_lt (Nat.lt_of_lt_of_le hlt ht.le_id)
    have hf : ((addReading d t).1.linkMember object done name (addReading d t).2).Forest :=
      Forest.linkMember ht.forest hc₁ ht.id_lt ht.parent_id (Ne.symm hne)
        (by simp [ForestWith.ancestors_of_parent_eq_none hp₁])
    have hold : ∀ old, done.find? name = some old → old < (addReading d t).1.nodes.size :=
      fun old hx => lt_size_of_parent (ht.forest.parent_of_find? hc₁ hx)
    unfold addReadMembers
    refine LaidMembers.cons ht hc₁ hlt (laidMembers_addReadMembers ms hf ?_ ?_)
    · rw [content_linkMember (lt_size_of_content_object hc₁), if_pos rfl]
    · rw [parent_linkMember ht.id_lt hold, if_neg hne, hp₁, ite_self]

end

/-! ## Children first -/

/-- What copying children achieves: new nodes that wait for their container, with their names. -/
structure Gathered (loose links : List (Option String × NodeId)) (d d' : Document) : Prop where
  forest : d'.ForestWith (links ++ loose)
  ext : d.Extends d'
  le_id : ∀ x ∈ links.map Prod.snd, d.nodes.size ≤ x
  nodup : (links.map Prod.snd).Nodup

section Copying

variable {loose : List (Option String × NodeId)} {d d₁ d' : Document} {id : NodeId}
  {t : Tree Scalar}

theorem ForestWith.lt_size_of_mem_loose (h : d.ForestWith loose) {x : NodeId}
    (hx : x ∈ loose.map Prod.snd) : x < d.nodes.size := by
  obtain ⟨⟨k, y⟩, hy, rfl⟩ := List.mem_map.mp hx
  exact (h.of_mem_loose k y hy).1

/-- It does not matter in which order the loose nodes are named. -/
theorem ForestWith.perm {loose' : List (Option String × NodeId)} (h : d.ForestWith loose)
    (hp : loose.Perm loose') : d.ForestWith loose' where
  mem_links_iff := h.mem_links_iff
  children_nodup := h.children_nodup
  names_nodup := h.names_nodup
  of_mem_loose k c hc := h.of_mem_loose k c (hp.mem_iff.mpr hc)
  name_eq_none c hc hn := h.name_eq_none c hc fun hm => hn ((hp.map _).mem_iff.mp hm)
  wellFounded := h.wellFounded

/-- A node on top may be called loose, and may get a name. -/
theorem ForestWith.setName (h : d.ForestWith loose) (hid : id < d.nodes.size)
    (hp : d.parent id = none) (hn : id ∉ loose.map Prod.snd) (k : Option String) :
    (d.setName id k).ForestWith ((k, id) :: loose) where
  mem_links_iff p j x := by
    rw [content_setName, h.mem_links_iff, parent_setName, name_setName hid]
    split
    · next hx => simp [hx, hp]
    · rfl
  children_nodup p := by
    rw [children, content_setName]
    exact h.children_nodup p
  names_nodup p := by
    rw [content_setName]
    exact h.names_nodup p
  of_mem_loose j x hx := by
    rw [size_setName, parent_setName, name_setName hid]
    rcases List.mem_cons.mp hx with he | hx
    · cases he
      exact ⟨hid, hp, if_pos rfl⟩
    · have hne : x ≠ id := fun e => hn (e ▸ List.mem_map_of_mem hx)
      rw [if_neg hne]
      exact h.of_mem_loose j x hx
  name_eq_none x hx hxn := by
    rw [parent_setName] at hx
    rw [List.map_cons, List.mem_cons, not_or] at hxn
    rw [name_setName hid, if_neg hxn.1, h.name_eq_none x hx hxn.2]
  wellFounded := by
    have he : (d.setName id k).Contains = d.Contains := by
      funext p x
      rw [Contains, parent_setName, Contains]
    rw [he]
    exact h.wellFounded

theorem ForestWith.loosen (h : d.ForestWith loose) (hid : id < d.nodes.size)
    (hp : d.parent id = none) (hn : id ∉ loose.map Prod.snd) :
    d.ForestWith ((none, id) :: loose) where
  mem_links_iff := h.mem_links_iff
  children_nodup := h.children_nodup
  names_nodup := h.names_nodup
  of_mem_loose j x hx := by
    rcases List.mem_cons.mp hx with he | hx
    · cases he
      exact ⟨hid, hp, h.name_eq_none id hp hn⟩
    · exact h.of_mem_loose j x hx
  name_eq_none x hx hxn := h.name_eq_none x hx fun hm => hxn (List.mem_cons_of_mem _ hm)
  wellFounded := h.wellFounded

theorem Laid.not_mem_loose (ht : Laid loose d d₁ id t) (h : d.ForestWith loose) :
    id ∉ loose.map Prod.snd :=
  fun hm => Nat.not_lt.mpr ht.le_id (h.lt_size_of_mem_loose hm)

theorem Gathered.nil (h : d.ForestWith loose) : Gathered loose [] d d where
  forest := h
  ext := .refl d
  le_id := by simp
  nodup := by simp

/-- One copy more that waits for its container. -/
theorem Gathered.cons {d₂ : Document} {k : Option String}
    {links : List (Option String × NodeId)} (ht : Laid loose d d₁ id t) (hext : d.Extends d₂)
    (hid : id < d₂.nodes.size) (hg : Gathered ((k, id) :: loose) links d₂ d') :
    Gathered loose ((k, id) :: links) d d' where
  forest := hg.forest.perm List.perm_middle
  ext := hext.trans hg.ext
  le_id x hx := by
    rcases List.mem_cons.mp hx with rfl | hx
    · exact ht.le_id
    · exact Nat.le_trans hext.size_le (hg.le_id x hx)
  nodup := by
    exact List.nodup_cons.mpr ⟨fun hm => Nat.not_lt.mpr (hg.le_id id hm) hid, hg.nodup⟩

/-- Children that were gathered get their container. -/
theorem Gathered.laid {c : Content} (h : d.ForestWith loose) (hg : Gathered loose c.links d d₁)
    (hnames : c.NamesNodup)
    (ht : ∀ d'', d''.content d₁.nodes.size = c → Agree d.nodes.size d₁.nodes.size d₁ d'' →
      Shows d'' d₁.nodes.size t) :
    Laid loose d ((d₁.placeIn d₁.nodes.size c.children).alloc c).1 d₁.nodes.size t := by
  have hle : ∀ x ∈ c.children, d.nodes.size ≤ x := by simpa using hg.le_id
  have hlt : ∀ x ∈ c.children, x < d₁.nodes.size := by
    intro x hx
    refine hg.forest.lt_size_of_mem_loose ?_
    rw [List.map_append, Content.map_snd_links]
    exact List.mem_append_left _ hx
  have hcontent : ∀ x, ((d₁.placeIn d₁.nodes.size c.children).alloc c).1.content x =
      if x = d₁.nodes.size then c else d₁.content x := by
    intro x
    rw [content_alloc, content_placeIn, size_placeIn]
  exact {
    forest := hg.forest.gather (by simpa using hg.nodup)
      (fun x hx hm => Nat.not_lt.mpr (hle x hx) (h.lt_size_of_mem_loose hm)) hnames
    ext := (extends_placeIn hg.ext hle).trans (extends_alloc _ c)
    le_id := hg.ext.size_le
    id_lt := by simp
    parent_id := by
      rw [parent_alloc, parent_placeIn hlt, if_neg fun hm => Nat.lt_irrefl _ (hlt _ hm),
        parent_of_size_le (Nat.le_refl _)]
    shows := by
      intro d'' hd
      refine ht d'' ?_ ?_
      · rw [hd _ hg.ext.size_le (by simp), hcontent, if_pos rfl]
      · intro x hx hx'
        rw [hd x hx (by simpa using Nat.lt_succ_of_lt hx'), hcontent, if_neg (Nat.ne_of_lt hx')] }

end Copying

theorem addCopy_array (d : Document) (ts : List (Tree Scalar)) :
    addCopy d (.array ts) = (((addCopyItems d ts).1.placeIn (addCopyItems d ts).1.nodes.size
      (addCopyItems d ts).2).alloc (.array (addCopyItems d ts).2)) := by
  unfold addCopy
  rfl

theorem addCopy_object (d : Document) (ms : List (String × Tree Scalar)) :
    addCopy d (.object ms) = (((addCopyMembers d ms).1.placeIn (addCopyMembers d ms).1.nodes.size
      ((addCopyMembers d ms).2.map Prod.snd)).alloc (.object (addCopyMembers d ms).2)) := by
  unfold addCopy
  rfl

mutual

/-- Copying leaves a forest that shows the tree. -/
theorem laid_addCopy : ∀ {t : Tree Scalar}, t.NamesNodup →
    ∀ {d : Document} {loose : List (Option String × NodeId)}, d.ForestWith loose →
      Laid loose d (addCopy d t).1 (addCopy d t).2 t
  | .leaf s, _, d, loose, h => laid_leaf h s
  | .array ts, hn, d, loose, h => by
    obtain ⟨hg, hs⟩ := gathered_addCopyItems hn h
    rw [addCopy_array, alloc_snd, size_placeIn]
    exact Gathered.laid (c := .array (addCopyItems d ts).2) h hg (by rintro _ ⟨⟩)
      fun d'' hc hd => ⟨_, hc, hs d'' hd⟩
  | .object ms, hn, d, loose, h => by
    obtain ⟨hg, hs, hnames⟩ := gathered_addCopyMembers hn.2 h
    rw [addCopy_object, alloc_snd, size_placeIn]
    refine Gathered.laid (c := .object (addCopyMembers d ms).2) h hg ?_
      fun d'' hc hd => ⟨_, hc, hs d'' hd⟩
    rintro _ ⟨⟩
    rw [hnames]
    exact hn.1

theorem gathered_addCopyItems : ∀ {ts : List (Tree Scalar)}, Tree.NamesNodupItems ts →
    ∀ {d : Document} {loose : List (Option String × NodeId)}, d.ForestWith loose →
      Gathered loose (Content.array (addCopyItems d ts).2).links d (addCopyItems d ts).1 ∧
      ∀ d'', Agree d.nodes.size (addCopyItems d ts).1.nodes.size (addCopyItems d ts).1 d'' →
        ShowsItems d'' (addCopyItems d ts).2 ts
  | [], _, d, loose, h => ⟨.nil h, fun _ _ => showsItems_nil⟩
  | t :: ts, hn, d, loose, h => by
    have ht := laid_addCopy hn.1 h
    have hf := ht.forest.loosen ht.id_lt ht.parent_id (ht.not_mem_loose h)
    obtain ⟨hg, hs⟩ := gathered_addCopyItems hn.2 hf
    unfold addCopyItems
    refine ⟨.cons ht ht.ext ht.id_lt hg, fun d'' hd => showsItems_cons ?_ ?_⟩
    · refine ht.shows d'' ?_
      intro x hx hx'
      rw [hd x hx (Nat.lt_of_lt_of_le hx' hg.ext.size_le), hg.ext.content_eq hx']
    · exact hs d'' (hd.mono ht.ext.size_le (Nat.le_refl _))

theorem gathered_addCopyMembers : ∀ {ms : List (String × Tree Scalar)},
    Tree.NamesNodupMembers ms →
    ∀ {d : Document} {loose : List (Option String × NodeId)}, d.ForestWith loose →
      Gathered loose (Content.object (addCopyMembers d ms).2).links d (addCopyMembers d ms).1 ∧
      (∀ d'', Agree d.nodes.size (addCopyMembers d ms).1.nodes.size (addCopyMembers d ms).1 d'' →
        ShowsMembers d'' (addCopyMembers d ms).2 ms) ∧
      Members.names (addCopyMembers d ms).2 = Members.names ms
  | [], _, d, loose, h => ⟨.nil h, fun _ _ => showsMembers_nil, rfl⟩
  | (name, t) :: ms, hn, d, loose, h => by
    have ht := laid_addCopy hn.1 h
    have hf := ht.forest.setName ht.id_lt ht.parent_id (ht.not_mem_loose h) (some name)
    obtain ⟨hg, hs, hnames⟩ := gathered_addCopyMembers hn.2 hf
    have hsize : ∀ k, ((addCopy d t).1.setName (addCopy d t).2 k).nodes.size =
      (addCopy d t).1.nodes.size := fun k => size_setName k
    have hext := extends_setName ht.ext ht.le_id (some name)
    unfold addCopyMembers
    refine ⟨.cons ht hext (by rw [hsize]; exact ht.id_lt) hg,
      fun d'' hd => showsMembers_cons ?_ ?_, ?_⟩
    · refine ht.shows d'' ?_
      intro x hx hx'
      rw [hd x hx (Nat.lt_of_lt_of_le (by rw [hsize]; exact hx') hg.ext.size_le),
        hg.ext.content_eq (by rw [hsize]; exact hx'), content_setName]
    · exact hs d'' (hd.mono (by rw [hsize]; exact ht.ext.size_le) (Nat.le_refl _))
    · rw [Members.names_cons, Members.names_cons, hnames]

end

end Reshape.Document
