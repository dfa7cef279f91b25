import Reshape.Proofs.Document.Reachable

/-!
# Ordered forests

What a document is without the places that its nodes record: each container lists its children in
order, and nothing else is known. When edits of such a forest are allowed, and what they make of it,
is said in these terms only, without any walk upwards and without the look-up of a name.

## Main definitions

* `Document.Outline`: an ordered forest.
* `Outline.Free`: a node that can be placed somewhere.
* `Outline.Allows`, `Outline.Becomes`: when an edit is accepted, and what it does.
* `Document.outline`: the ordered forest of a document.

## Main statements

* `Outline.Becomes.unique`: an edit leaves no choice.
* `Document.Rooted.attachable_iff_free`: what can be attached is what is free.
-/

namespace Reshape.Document

/-- The node of which an edit changes what it holds. -/
def Edit.target : Edit → Option NodeId
  | createObject | createArray | createValue _ | setRoot _ => none
  | insertField id _ _ | removeField id _ | pushElement id _ | insertElement id _ _
  | removeElement id _ | setValue id _ => some id

/-- The place that an edit gives to a node: which node it is, in which container, and under which
name. -/
def Edit.placement : Edit → Option (NodeId × NodeId × Option String)
  | insertField object name child => some (child, object, some name)
  | pushElement array child | insertElement array _ child => some (child, array, none)
  | _ => none

/-- An ordered forest: what each of its nodes holds, and which one is the root. -/
structure Outline where
  count : Nat
  root : NodeId
  holds : NodeId → Content

namespace Outline

variable (o : Outline)

/-! ## Conditions -/

/-- One node is listed by the other. -/
def Lists (p c : NodeId) : Prop := c ∈ (o.holds p).children

/-- The node is not listed anywhere. -/
def OnTop (c : NodeId) : Prop := ∀ p, ¬o.Lists p c

/-- The node can be placed in `p`: it is on top, not the root, and neither `p` nor around it. -/
structure Free (p c : NodeId) : Prop where
  onTop : o.OnTop c
  ne_root : c ≠ o.root
  ne : c ≠ p
  not_around : ¬Relation.TransGen o.Lists c p

/-- The edit is accepted. -/
def Allows : Edit → Prop
  | .createObject | .createArray | .createValue _ => True
  | .insertField object _ child => (∃ ms, o.holds object = .object ms) ∧ o.Free object child
  | .removeField object _ => ∃ ms, o.holds object = .object ms
  | .pushElement array child => (∃ items, o.holds array = .array items) ∧ o.Free array child
  | .insertElement array i child =>
    (∃ items, o.holds array = .array items ∧ i ≤ items.length) ∧ o.Free array child
  | .removeElement array i => ∃ items, o.holds array = .array items ∧ i < items.length
  | .setValue id _ => ∃ s, o.holds id = .value s
  | .setRoot id => id = o.root ∨ o.OnTop id

/-! ## Changes -/

/-- The forest with one node more. -/
def add (c : Content) : Outline :=
  ⟨o.count + 1, o.root, fun x => if x = o.count then c else o.holds x⟩

/-- The forest with what one node holds replaced. -/
def put (id : NodeId) (c : Content) : Outline :=
  { o with holds := fun x => if x = id then c else o.holds x }

/-- What becomes of the forest by an edit, and the node that is returned: one that is new, or one
that is no longer listed. -/
inductive Becomes : Edit → Option NodeId → Outline → Prop
  | createObject : Becomes .createObject (some o.count) (o.add (.object []))
  | createArray : Becomes .createArray (some o.count) (o.add (.array []))
  | createValue (s : Scalar) : Becomes (.createValue s) (some o.count) (o.add (.value s))
  /-- The child takes the place of the member that had the name. -/
  | replaceField {object child old : NodeId} {name : String} {pre post : Members NodeId} :
    o.holds object = .object (pre ++ (name, old) :: post) →
    Becomes (.insertField object name child) (some old)
      (o.put object (.object (pre ++ (name, child) :: post)))
  /-- A member of a new name is the last one. -/
  | appendField {object child : NodeId} {name : String} {ms : Members NodeId} :
    o.holds object = .object ms → name ∉ ms.names →
    Becomes (.insertField object name child) none (o.put object (.object (ms ++ [(name, child)])))
  | removeField {object old : NodeId} {name : String} {pre post : Members NodeId} :
    o.holds object = .object (pre ++ (name, old) :: post) →
    Becomes (.removeField object name) (some old) (o.put object (.object (pre ++ post)))
  /-- Without a member of the name nothing happens. -/
  | removeNothing {object : NodeId} {name : String} {ms : Members NodeId} :
    o.holds object = .object ms → name ∉ ms.names →
    Becomes (.removeField object name) none o
  | pushElement {array child : NodeId} {items : List NodeId} :
    o.holds array = .array items →
    Becomes (.pushElement array child) none (o.put array (.array (items ++ [child])))
  /-- Later elements are one further. -/
  | insertElement {array child : NodeId} {i : Nat} {pre post : List NodeId} :
    o.holds array = .array (pre ++ post) → pre.length = i →
    Becomes (.insertElement array i child) none (o.put array (.array (pre ++ child :: post)))
  /-- Later elements close the gap. -/
  | removeElement {array old : NodeId} {i : Nat} {pre post : List NodeId} :
    o.holds array = .array (pre ++ old :: post) → pre.length = i →
    Becomes (.removeElement array i) (some old) (o.put array (.array (pre ++ post)))
  | setValue {id : NodeId} {s : Scalar} (s' : Scalar) :
    o.holds id = .value s → Becomes (.setValue id s') none (o.put id (.value s'))
  | setRoot (id : NodeId) : Becomes (.setRoot id) none { o with root := id }

variable {o} {o' : Outline} {e : Edit} {r : Option NodeId}

/-- Only the container or value that an edit names holds something else afterwards. -/
theorem Becomes.holds_eq (h : o.Becomes e r o') {x : NodeId} (hx : e.target ≠ some x)
    (hr : r ≠ some x) : o'.holds x = o.holds x := by
  cases h <;> grind [Edit.target, add, put]

/-- An edit leaves no choice, if no object repeats a name. -/
theorem Becomes.unique {o'' : Outline} {r' : Option NodeId} (hn : ∀ p, (o.holds p).NamesNodup)
    (h : o.Becomes e r o') (h' : o.Becomes e r' o'') : r = r' ∧ o' = o'' := by
  -- A member of a name is there or not, and a position divides a list in one way.
  have hpresent : ∀ {pre post : Members NodeId} {name : String} {old : NodeId},
      name ∈ Members.names (pre ++ (name, old) :: post) := by
    simp [Members.names]
  cases h with
  | createObject | createArray | createValue s | setRoot id =>
    cases h'
    exact ⟨rfl, rfl⟩
  | replaceField hc =>
    cases h' with
    | replaceField hc' =>
      obtain ⟨rfl, rfl, rfl⟩ :=
        Members.append_cons_inj (hn _ _ hc) (Content.object.inj (hc.symm.trans hc'))
      exact ⟨rfl, rfl⟩
    | appendField hc' hnot =>
      cases hc.symm.trans hc'
      exact absurd hpresent hnot
  | appendField hc hnot =>
    cases h' with
    | replaceField hc' =>
      cases hc.symm.trans hc'
      exact absurd hpresent hnot
    | appendField hc' _ =>
      cases hc.symm.trans hc'
      exact ⟨rfl, rfl⟩
  | removeField hc =>
    cases h' with
    | removeField hc' =>
      obtain ⟨rfl, rfl, rfl⟩ :=
        Members.append_cons_inj (hn _ _ hc) (Content.object.inj (hc.symm.trans hc'))
      exact ⟨rfl, rfl⟩
    | removeNothing hc' hnot =>
      cases hc.symm.trans hc'
      exact absurd hpresent hnot
  | removeNothing hc hnot =>
    cases h' with
    | removeField hc' =>
      cases hc.symm.trans hc'
      exact absurd hpresent hnot
    | removeNothing hc' _ => exact ⟨rfl, rfl⟩
  | pushElement hc =>
    cases h' with
    | pushElement hc' =>
      cases hc.symm.trans hc'
      exact ⟨rfl, rfl⟩
  | insertElement hc hi =>
    cases h' with
    | insertElement hc' hi' =>
      obtain ⟨rfl, rfl⟩ :=
        List.append_inj (Content.array.inj (hc.symm.trans hc')) (hi.trans hi'.symm)
      exact ⟨rfl, rfl⟩
  | removeElement hc hi =>
    cases h' with
    | removeElement hc' hi' =>
      obtain ⟨rfl, hrest⟩ :=
        List.append_inj (Content.array.inj (hc.symm.trans hc')) (hi.trans hi'.symm)
      cases hrest
      exact ⟨rfl, rfl⟩
  | setValue s hc =>
    cases h'
    exact ⟨rfl, rfl⟩

end Outline

/-! ## The forest of a document -/

/-- The ordered forest of a document. -/
def outline (d : Document) : Outline := ⟨d.nodes.size, d.root, d.content⟩

section outline

variable {d : Document} {p c : NodeId}

theorem Rooted.lists_iff (h : d.Rooted) : d.outline.Lists p c ↔ d.Contains p c :=
  h.forest.mem_children_iff

theorem Rooted.onTop_iff (h : d.Rooted) : d.outline.OnTop c ↔ d.parent c = none := by
  simp only [Outline.OnTop, h.lists_iff, Contains]
  exact Option.eq_none_iff_forall_ne_some.symm

/-- A node can be attached exactly where it is free. -/
theorem Rooted.attachable_iff_free (h : d.Rooted) :
    d.attachable p c = .ok () ↔ d.outline.Free p c := by
  have hlists : d.outline.Lists = d.Contains := by
    funext p c
    exact propext h.lists_iff
  rw [attachable_eq_ok_iff, ← h.onTop_iff, h.forest.mem_ancestors_iff, ← hlists]
  exact ⟨fun ⟨htop, hroot, hne, hnot⟩ => ⟨htop, hroot, hne, hnot⟩,
    fun ⟨htop, hroot, hne, hnot⟩ => ⟨htop, hroot, hne, hnot⟩⟩

theorem outline_alloc (d : Document) (c : Content) : (d.alloc c).1.outline = d.outline.add c := by
  simp only [outline, Outline.add, size_alloc, root_alloc, Outline.mk.injEq, true_and]
  funext x
  exact content_alloc c

theorem outline_setContent {id : NodeId} (hid : id < d.nodes.size) (c : Content) :
    (d.setContent id c).outline = d.outline.put id c := by
  simp only [outline, Outline.put, size_setContent, root_setContent, Outline.mk.injEq, true_and]
  funext x
  exact content_setContent hid c

/-- The places that nodes record do not matter. -/
@[simp] theorem outline_setPlace (d : Document) (id : NodeId) (p : Option NodeId)
    (k : Option String) : (d.setPlace id p k).outline = d.outline := by
  simp only [outline, size_setPlace, root_setPlace, Outline.mk.injEq, true_and]
  funext x
  exact content_setPlace p k

@[simp] theorem outline_setParent (d : Document) (id : NodeId) (p : Option NodeId) :
    (d.setParent id p).outline = d.outline := by
  simp only [outline, size_setParent, root_setParent, Outline.mk.injEq, true_and]
  funext x
  exact content_setParent p

theorem outline_linkMember {object child : NodeId} (ho : object < d.nodes.size)
    (ms : Members NodeId) (name : String) :
    (d.linkMember object ms name child).outline =
      d.outline.put object (.object (ms.put name child)) := by
  unfold linkMember
  cases ms.find? name <;> simp [detach, outline_setContent ho]

theorem outline_linkElement {array child : NodeId} (ha : array < d.nodes.size)
    (items : List NodeId) (i : Nat) :
    (d.linkElement array items i child).outline =
      d.outline.put array (.array (items.insertIdx i child)) := by
  simp [linkElement, outline_setContent ha]

end outline

end Reshape.Document
