import Reshape.Proofs.Document.Outline

/-!
# Edits do what they say

Every edit of a document that can arise is an edit of its ordered forest: it is accepted exactly
when the forest allows it, it makes of the forest what it should, and it leaves the records of all
other nodes alone. An edit that is refused changes nothing.

## Main definitions

* `Document.Edit.outcome`: an edit with the node that it returns.
* `Document.Effect`: what an accepted edit achieves.

## Main statements

* `Document.Rooted.exists_outcome_iff`: when edits are accepted.
* `Document.Rooted.effect`: what accepted edits achieve.
* `Document.outcome_refines`.
-/

namespace Reshape.Document

/-- The document after an edit that succeeds, and the node that is returned: one that is new, or one
that has lost its place. -/
def Edit.outcome (d : Document) : Edit → Except EditError (Document × Option NodeId)
  | createObject => .ok ((d.alloc (.object [])).1, some (d.alloc (.object [])).2)
  | createArray => .ok ((d.alloc (.array [])).1, some (d.alloc (.array [])).2)
  | createValue s => .ok ((d.alloc (.value s)).1, some (d.alloc (.value s)).2)
  | insertField object name child => d.insertField object name child
  | removeField object name => d.removeField object name
  | pushElement array child => (·, none) <$> d.pushElement array child
  | insertElement array i child => (·, none) <$> d.insertElement array i child
  | removeElement array i => (fun r => (r.1, some r.2)) <$> d.removeElement array i
  | setValue id s => (·, none) <$> d.setValue id s
  | setRoot id => (·, none) <$> d.setRoot id

theorem Edit.apply_eq (d : Document) (e : Edit) : e.apply d = Prod.fst <$> e.outcome d := by
  cases e <;> simp [apply, outcome]

theorem Edit.perform_of_outcome_eq_ok {d d' : Document} {e : Edit} {r : Option NodeId}
    (h : e.outcome d = .ok (d', r)) : d.perform e = d' := by
  rw [perform, apply_eq, h]
  rfl

theorem Edit.perform_of_outcome_eq_error {d : Document} {e : Edit} {err : EditError}
    (h : e.outcome d = .error err) : d.perform e = d := by
  rw [perform, apply_eq, h]
  rfl

/-! ## When edits succeed -/

theorem exists_map_eq_ok_iff {ε α β : Type} {f : α → β} {x : Except ε α} :
    (∃ b, f <$> x = .ok b) ↔ ∃ a, x = .ok a := by
  rcases x with e | a <;> simp

/-- An edit is accepted exactly when the forest allows it. -/
theorem Rooted.exists_outcome_iff {d : Document} (h : d.Rooted) (e : Edit) :
    (∃ r, e.outcome d = .ok r) ↔ d.outline.Allows e := by
  cases e with
  | createObject | createArray | createValue => simp [Edit.outcome, Outline.Allows]
  | insertField object name child =>
    simp only [Edit.outcome, insertField_eq_ok_iff, h.attachable_iff_free]
    constructor
    · rintro ⟨_, ms, hc, hfree, -⟩
      exact ⟨⟨ms, hc⟩, hfree⟩
    · rintro ⟨⟨ms, hc⟩, hfree⟩
      exact ⟨_, ms, hc, hfree, rfl⟩
  | removeField object name =>
    simp only [Edit.outcome, removeField_eq_ok_iff]
    constructor
    · rintro ⟨_, ms, hc, -⟩
      exact ⟨ms, hc⟩
    · rintro ⟨ms, hc⟩
      rcases hold : Members.find? ms name with _ | old
      · exact ⟨_, ms, hc, .inr ⟨hold, rfl⟩⟩
      · exact ⟨_, ms, hc, .inl ⟨old, hold, rfl⟩⟩
  | pushElement array child =>
    simp only [Edit.outcome, exists_map_eq_ok_iff, pushElement_eq_ok_iff, h.attachable_iff_free]
    constructor
    · rintro ⟨_, items, hc, hfree, -⟩
      exact ⟨⟨items, hc⟩, hfree⟩
    · rintro ⟨⟨items, hc⟩, hfree⟩
      exact ⟨_, items, hc, hfree, rfl⟩
  | insertElement array i child =>
    simp only [Edit.outcome, exists_map_eq_ok_iff, insertElement_eq_ok_iff, h.attachable_iff_free]
    constructor
    · rintro ⟨_, items, hc, hi, hfree, -⟩
      exact ⟨⟨items, hc, hi⟩, hfree⟩
    · rintro ⟨⟨items, hc, hi⟩, hfree⟩
      exact ⟨_, items, hc, hi, hfree, rfl⟩
  | removeElement array i =>
    simp only [Edit.outcome, exists_map_eq_ok_iff, removeElement_eq_ok_iff]
    constructor
    · rintro ⟨_, items, old, hc, hi, -⟩
      exact ⟨items, hc, (List.getElem?_eq_some_iff.mp hi).1⟩
    · rintro ⟨items, hc, hi⟩
      exact ⟨_, items, items[i], hc, List.getElem?_eq_getElem hi, rfl⟩
  | setValue id s =>
    simp only [Edit.outcome, exists_map_eq_ok_iff, setValue_eq_ok_iff]
    constructor
    · rintro ⟨_, hc, -⟩
      exact hc
    · intro hc
      exact ⟨_, hc, rfl⟩
  | setRoot id =>
    simp only [Edit.outcome, exists_map_eq_ok_iff, setRoot_eq_ok_iff, ← h.onTop_iff]
    constructor
    · rintro ⟨_, hid, -⟩
      exact hid
    · intro hid
      exact ⟨_, hid, rfl⟩

/-! ## What successful edits achieve -/

/-- What an accepted edit achieves. -/
structure Effect (d : Document) (e : Edit) (r : Option NodeId) (d' : Document) : Prop where
  /-- The forest is the right one. -/
  becomes : d.outline.Becomes e r d'.outline
  /-- The node that is attached records its place. -/
  placed : ∀ c p k, e.placement = some (c, p, k) → d'.parent c = some p ∧ d'.name c = k
  /-- The node that is returned has no place. -/
  detached : ∀ x, r = some x → d'.parent x = none ∧ d'.name x = none
  /-- Other nodes keep their places. -/
  kept : ∀ x, e.placement.map Prod.fst ≠ some x → r ≠ some x →
    d'.parent x = d.parent x ∧ d'.name x = d.name x

section Effect

variable {d d' : Document} {object array child id : NodeId} {name : String} {i : Nat} {s : Scalar}

/-- The records of nodes that are neither changed, nor attached, nor returned stay as they are. -/
theorem Effect.record_eq {e : Edit} {r : Option NodeId} (h : Effect d e r d') {x : NodeId}
    (htarget : e.target ≠ some x) (hplaced : e.placement.map Prod.fst ≠ some x)
    (hr : r ≠ some x) : d'.record x = d.record x := by
  obtain ⟨hparent, hname⟩ := h.kept x hplaced hr
  have hcontent : d'.content x = d.content x := h.becomes.holds_eq htarget hr
  change Record.mk (d'.parent x) (d'.name x) (d'.content x) =
    Record.mk (d.parent x) (d.name x) (d.content x)
  rw [hparent, hname, hcontent]

/-! ### Members -/

theorem Rooted.effect_insertField (h : d.Rooted) (hchild : child < d.nodes.size)
    {r : Document × Option NodeId} (hr : d.insertField object name child = .ok r) :
    Effect d (.insertField object name child) r.2 r.1 := by
  obtain ⟨ms, hc, hattach, rfl⟩ := insertField_eq_ok_iff.mp hr
  have hfree := (attachable_eq_ok_iff.mp hattach).1
  have hold : ∀ old, Members.find? ms name = some old → d.parent old = some object :=
    fun old hf => h.forest.parent_of_find? hc hf
  have hlt : ∀ old, Members.find? ms name = some old → old < d.nodes.size := fun old hf =>
    lt_size_of_parent (hold old hf)
  refine ⟨?_, ?_, ?_, ?_⟩
  · rw [outline_linkMember (lt_size_of_content_object hc)]
    rcases hf : Members.find? ms name with _ | old
    · have hn := Members.find?_eq_none_iff.mp hf
      rw [Members.put_of_not_mem hn]
      exact .appendField hc hn
    · obtain ⟨pre, post, rfl, hput, -⟩ := Members.exists_eq_append_of_find?_eq_some hf
      rw [hput]
      exact .replaceField hc
  · rintro _ _ _ ⟨⟩
    rw [parent_linkMember hchild hlt, name_linkMember hchild hlt, if_pos rfl, if_pos rfl]
    exact ⟨rfl, rfl⟩
  · intro old hf
    -- The new member was free, and the one that it replaces was not.
    have hne : old ≠ child := by
      rintro rfl
      rw [hold old hf] at hfree
      cases hfree
    rw [parent_linkMember hchild hlt, name_linkMember hchild hlt, if_neg hne, if_neg hne,
      if_pos hf, if_pos hf]
    exact ⟨rfl, rfl⟩
  · intro x hx hne
    have hxc : x ≠ child := fun e => hx (congrArg some e.symm)
    rw [parent_linkMember hchild hlt, name_linkMember hchild hlt, if_neg hxc, if_neg hxc,
      if_neg hne, if_neg hne]
    exact ⟨rfl, rfl⟩

theorem Rooted.effect_removeField (h : d.Rooted) {r : Document × Option NodeId}
    (hr : d.removeField object name = .ok r) : Effect d (.removeField object name) r.2 r.1 := by
  obtain ⟨ms, hc, ⟨old, hf, rfl⟩ | ⟨hf, rfl⟩⟩ := removeField_eq_ok_iff.mp hr
  · have hlt : old < (d.setContent object (.object (Members.erase ms name))).nodes.size := by
      rw [size_setContent]
      exact lt_size_of_parent (h.forest.parent_of_find? hc hf)
    refine ⟨?_, ?_, ?_, ?_⟩
    · obtain ⟨pre, post, rfl, -, herase⟩ := Members.exists_eq_append_of_find?_eq_some hf
      rw [detach, outline_setPlace, outline_setContent (lt_size_of_content_object hc), herase]
      exact .removeField hc
    · rintro _ _ _ ⟨⟩
    · rintro _ ⟨⟩
      rw [detach, parent_setPlace hlt, name_setPlace hlt, if_pos rfl, if_pos rfl]
      exact ⟨rfl, rfl⟩
    · intro x _ hne
      have hxo : x ≠ old := fun e => hne (congrArg some e.symm)
      rw [detach, parent_setPlace hlt, name_setPlace hlt, if_neg hxo, if_neg hxo,
        parent_setContent, name_setContent]
      exact ⟨rfl, rfl⟩
  · refine ⟨.removeNothing hc (Members.find?_eq_none_iff.mp hf), ?_, ?_, fun _ _ _ => ⟨rfl, rfl⟩⟩
    · rintro _ _ _ ⟨⟩
    · rintro _ ⟨⟩

/-! ### Elements -/

/-- A list with one element more in it. -/
theorem insertIdx_eq_append (items : List NodeId) (hi : i ≤ items.length) :
    items.insertIdx i child = items.take i ++ child :: items.drop i := by
  induction items generalizing i with
  | nil =>
    obtain rfl := Nat.le_zero.mp hi
    rfl
  | cons x rest ih =>
    cases i with
    | zero => rfl
    | succ i => simp [ih (Nat.le_of_succ_le_succ hi)]

/-- An array takes an element that was free. -/
theorem Rooted.effect_linkElement (h : d.Rooted) {e : Edit} {items : List NodeId}
    (he : e.placement = some (child, array, none)) (hchild : child < d.nodes.size)
    (hfree : d.parent child = none) (hc : d.content array = .array items)
    (hbecomes : d.outline.Becomes e none
      (d.outline.put array (.array (items.insertIdx i child)))) :
    Effect d e none (d.linkElement array items i child) := by
  refine ⟨?_, ?_, ?_, ?_⟩
  · rw [outline_linkElement (lt_size_of_content_array hc)]
    exact hbecomes
  · intro c p k hplaced
    cases he.symm.trans hplaced
    rw [parent_linkElement hchild, if_pos rfl, name_linkElement]
    exact ⟨rfl, h.forest.name_eq_none _ hfree List.not_mem_nil⟩
  · rintro _ ⟨⟩
  · intro x hx _
    have hxc : x ≠ child := by
      rintro rfl
      rw [he] at hx
      exact hx rfl
    rw [parent_linkElement hchild, if_neg hxc, name_linkElement]
    exact ⟨rfl, rfl⟩

theorem Rooted.effect_pushElement (h : d.Rooted) (hchild : child < d.nodes.size)
    (hr : d.pushElement array child = .ok d') : Effect d (.pushElement array child) none d' := by
  obtain ⟨items, hc, hattach, rfl⟩ := pushElement_eq_ok_iff.mp hr
  refine h.effect_linkElement rfl hchild (attachable_eq_ok_iff.mp hattach).1 hc ?_
  rw [List.insertIdx_length_self]
  exact .pushElement hc

theorem Rooted.effect_insertElement (h : d.Rooted) (hchild : child < d.nodes.size)
    (hr : d.insertElement array i child = .ok d') :
    Effect d (.insertElement array i child) none d' := by
  obtain ⟨items, hc, hi, hattach, rfl⟩ := insertElement_eq_ok_iff.mp hr
  refine h.effect_linkElement rfl hchild (attachable_eq_ok_iff.mp hattach).1 hc ?_
  rw [insertIdx_eq_append items hi]
  refine .insertElement ?_ (List.length_take_of_le hi)
  rw [List.take_append_drop]
  exact hc

theorem Rooted.effect_removeElement (h : d.Rooted) {r : Document × NodeId}
    (hr : d.removeElement array i = .ok r) :
    Effect d (.removeElement array i) (some r.2) r.1 := by
  obtain ⟨items, old, hc, hi, rfl⟩ := removeElement_eq_ok_iff.mp hr
  obtain ⟨hlt, hget⟩ := List.getElem?_eq_some_iff.mp hi
  have hplace : d.parent old = some array ∧ d.name old = none := by
    rw [← h.forest.mem_links_iff, hc, Content.mem_links_array]
    exact ⟨rfl, List.mem_of_getElem? hi⟩
  have hold : old < (d.setContent array (.array (items.eraseIdx i))).nodes.size := by
    rw [size_setContent]
    exact lt_size_of_parent hplace.1
  refine ⟨?_, ?_, ?_, ?_⟩
  · rw [outline_setParent, outline_setContent (lt_size_of_content_array hc),
      List.eraseIdx_eq_take_drop_succ]
    refine .removeElement ?_ (List.length_take_of_le (Nat.le_of_lt hlt))
    rw [← hget, List.getElem_cons_drop, List.take_append_drop]
    exact hc
  · rintro _ _ _ ⟨⟩
  · rintro _ ⟨⟩
    rw [parent_setParent hold, if_pos rfl, name_setParent, name_setContent]
    exact ⟨rfl, hplace.2⟩
  · intro x _ hne
    have hxo : x ≠ old := fun e => hne (congrArg some e.symm)
    rw [parent_setParent hold, if_neg hxo, parent_setContent, name_setParent, name_setContent]
    exact ⟨rfl, rfl⟩

/-! ### Values, roots and new nodes -/

theorem effect_setValue (hid : id < d.nodes.size) (hr : d.setValue id s = .ok d') :
    Effect d (.setValue id s) none d' := by
  obtain ⟨⟨old, hc⟩, rfl⟩ := setValue_eq_ok_iff.mp hr
  refine ⟨?_, ?_, ?_, fun x _ _ => ⟨parent_setContent _, name_setContent _⟩⟩
  · rw [outline_setContent hid]
    exact .setValue s hc
  · rintro _ _ _ ⟨⟩
  · rintro _ ⟨⟩

theorem effect_setRoot (hr : d.setRoot id = .ok d') : Effect d (.setRoot id) none d' := by
  obtain ⟨-, rfl⟩ := setRoot_eq_ok_iff.mp hr
  refine ⟨.setRoot id, ?_, ?_, fun _ _ _ => ⟨rfl, rfl⟩⟩
  · rintro _ _ _ ⟨⟩
  · rintro _ ⟨⟩

theorem effect_create {e : Edit} {c : Content} (he : e.placement = none)
    (hbecomes : d.outline.Becomes e (some d.nodes.size) (d.outline.add c)) :
    Effect d e (some d.nodes.size) (d.alloc c).1 := by
  refine ⟨?_, ?_, ?_, fun x _ _ => ⟨parent_alloc c, name_alloc c⟩⟩
  · rw [outline_alloc]
    exact hbecomes
  · intro c p k hplaced
    cases he.symm.trans hplaced
  · rintro _ ⟨⟩
    rw [parent_alloc, name_alloc]
    exact ⟨parent_of_size_le (Nat.le_refl _), name_of_size_le (Nat.le_refl _)⟩

/-- What an accepted edit that names nodes of the document achieves. -/
theorem Rooted.effect (h : d.Rooted) {e : Edit} (he : ∀ id ∈ e.nodes, id < d.nodes.size)
    {r : Option NodeId} (hr : e.outcome d = .ok (d', r)) : Effect d e r d' := by
  cases e with
  | createObject => cases hr; exact effect_create rfl .createObject
  | createArray => cases hr; exact effect_create rfl .createArray
  | createValue s => cases hr; exact effect_create rfl (.createValue s)
  | insertField object name child =>
    exact h.effect_insertField (he child (by simp [Edit.nodes])) hr
  | removeField object name => exact h.effect_removeField hr
  | pushElement array child =>
    obtain ⟨r', hr', ⟨⟩⟩ := exists_of_map_eq_ok hr
    exact h.effect_pushElement (he child (by simp [Edit.nodes])) hr'
  | insertElement array i child =>
    obtain ⟨r', hr', ⟨⟩⟩ := exists_of_map_eq_ok hr
    exact h.effect_insertElement (he child (by simp [Edit.nodes])) hr'
  | removeElement array i =>
    obtain ⟨r', hr', ⟨⟩⟩ := exists_of_map_eq_ok hr
    exact h.effect_removeElement hr'
  | setValue id s =>
    obtain ⟨r', hr', ⟨⟩⟩ := exists_of_map_eq_ok hr
    exact effect_setValue (he id (by simp [Edit.nodes])) hr'
  | setRoot id =>
    obtain ⟨r', hr', ⟨⟩⟩ := exists_of_map_eq_ok hr
    exact effect_setRoot hr'

end Effect

/-- An edit of a document that can arise, if it names nodes of the document, is an edit of its
ordered forest. It is accepted exactly when the forest allows it. Then it makes of the forest what
it should, a node that it returns has no place, and no records are changed but those of the node
that it changes, of the one that it attaches and of the one that it returns. If it is refused,
nothing changes. -/
theorem outcome_refines {d : Document} (hd : Reachable d) {e : Edit}
    (he : ∀ id ∈ e.nodes, id < d.nodes.size) :
    ((∃ r, e.outcome d = .ok r) ↔ d.outline.Allows e) ∧
    (∀ d' r, e.outcome d = .ok (d', r) →
      d.perform e = d' ∧ d'.WellFormed ∧ Effect d e r d' ∧
      ∀ x, e.target ≠ some x → e.placement.map Prod.fst ≠ some x → r ≠ some x →
        d'.record x = d.record x) ∧
    ∀ err, e.outcome d = .error err → d.perform e = d := by
  refine ⟨hd.rooted.exists_outcome_iff e, ?_, fun err => Edit.perform_of_outcome_eq_error⟩
  intro d' r hr
  have heffect := hd.rooted.effect he hr
  obtain rfl := Edit.perform_of_outcome_eq_ok hr
  exact ⟨rfl, (hd.rooted.perform he).wellFormed, heffect, fun x => heffect.record_eq⟩

/-- A member is replaced by another array. -/
theorem outcome_refines_replacement :
    let d := (((new (.object [])).perform .createArray).perform (.insertField 0 "a" 1)).perform
      .createArray
    let e := Edit.insertField 0 "a" 2
    (∀ id ∈ e.nodes, id < d.nodes.size) ∧ d.outline.Allows e ∧
      ∃ d', e.outcome d = .ok (d', some 1) ∧ d.perform e = d' ∧ d'.WellFormed ∧
        Effect d e (some 1) d' := by
  intro d e
  have hd : Reachable d := by
    refine .perform (.perform (.perform .object ?_) ?_) ?_ <;> decide
  have he : ∀ id ∈ e.nodes, id < d.nodes.size := by decide
  obtain ⟨hallows, haccepted, -⟩ := outcome_refines hd he
  have hr : e.outcome d = .ok (d.perform e, some 1) := by decide
  obtain ⟨hperform, hwf, heffect, -⟩ := haccepted _ _ hr
  exact ⟨he, hallows.mp ⟨_, hr⟩, _, hr, hperform, hwf, heffect⟩

end Reshape.Document
