import Reshape.Proofs.Tree.Members

/-!
# Trees without repeated names

Resolving repeated names leaves none, and changes nothing where there are none. An object is left
with a member for each of its names, in the order in which the names occur first. The member has the
value that the name occurs with last, and in it repeated names are resolved too.

## Main definitions

* `Tree.NamesNodup`: no object of a tree has two members of one name.

## Main statements

* `Tree.namesNodup_distinct`, `Tree.distinct_eq_self`: there are no repeated names left, or anyway.
* `Tree.distinct_array`, `Tree.distinct_object`: what resolving makes of a tree, from its parts.
-/

namespace Reshape.Tree

variable {α β : Type}

mutual

/-- No object of the tree has two members of one name. -/
def NamesNodup : Tree α → Prop
  | leaf _ => True
  | array items => NamesNodupItems items
  | object ms => (Members.names ms).Nodup ∧ NamesNodupMembers ms

/-- The elements have no repeated names below them. -/
def NamesNodupItems : List (Tree α) → Prop
  | [] => True
  | t :: rest => NamesNodup t ∧ NamesNodupItems rest

/-- The members have no repeated names below them. -/
def NamesNodupMembers : List (String × Tree α) → Prop
  | [] => True
  | (_, t) :: rest => NamesNodup t ∧ NamesNodupMembers rest

end

theorem namesNodupMembers_iff {ms : List (String × Tree α)} :
    NamesNodupMembers ms ↔ ∀ t ∈ ms.map Prod.snd, NamesNodup t := by
  induction ms with
  | nil => simp [NamesNodupMembers]
  | cons m rest ih => simp [NamesNodupMembers, ih]

theorem namesNodupMembers_ofList {ms : List (String × Tree α)} (h : NamesNodupMembers ms) :
    NamesNodupMembers (Members.ofList ms) :=
  namesNodupMembers_iff.mpr fun t ht =>
    namesNodupMembers_iff.mp h t (Members.mem_values_ofList ht)

mutual

theorem namesNodup_distinct : ∀ t : Tree α, NamesNodup t.distinct
  | leaf _ => trivial
  | array items => namesNodupItems_distinctItems items
  | object ms =>
    ⟨Members.nodup_names_ofList _, namesNodupMembers_ofList (namesNodupMembers_distinctMembers ms)⟩

theorem namesNodupItems_distinctItems :
    ∀ items : List (Tree α), NamesNodupItems (distinctItems items)
  | [] => trivial
  | t :: rest => ⟨namesNodup_distinct t, namesNodupItems_distinctItems rest⟩

theorem namesNodupMembers_distinctMembers :
    ∀ ms : List (String × Tree α), NamesNodupMembers (distinctMembers ms)
  | [] => trivial
  | (_, t) :: rest => ⟨namesNodup_distinct t, namesNodupMembers_distinctMembers rest⟩

end

mutual

/-- Where no name is repeated there is nothing to resolve. -/
theorem distinct_eq_self : ∀ {t : Tree α}, NamesNodup t → t.distinct = t
  | leaf _, _ => rfl
  | array items, h => congrArg array (distinctItems_eq_self h)
  | object ms, h => by
    rw [distinct, distinctMembers_eq_self h.2, Members.ofList_of_nodup h.1]

theorem distinctItems_eq_self :
    ∀ {items : List (Tree α)}, NamesNodupItems items → distinctItems items = items
  | [], _ => rfl
  | t :: rest, h => by rw [distinctItems, distinct_eq_self h.1, distinctItems_eq_self h.2]

theorem distinctMembers_eq_self :
    ∀ {ms : List (String × Tree α)}, NamesNodupMembers ms → distinctMembers ms = ms
  | [], _ => rfl
  | (_, t) :: rest, h => by rw [distinctMembers, distinct_eq_self h.1, distinctMembers_eq_self h.2]

end

/-! ## Resolved trees -/

theorem distinctItems_eq (items : List (Tree α)) : distinctItems items = items.map distinct := by
  induction items with
  | nil => rfl
  | cons t rest ih => rw [distinctItems, List.map_cons, ih]

theorem distinctMembers_eq (ms : List (String × Tree α)) :
    distinctMembers ms = ms.map fun m => (m.1, m.2.distinct) := by
  induction ms with
  | nil => rfl
  | cons m rest ih => rw [distinctMembers, List.map_cons, ih]

/-- Names are resolved in each element. -/
theorem distinct_array (items : List (Tree α)) :
    (array items).distinct = array (items.map distinct) := by
  rw [distinct, distinctItems_eq]

/-- A member is left for each name, at the place of its first occurrence and with the value of its
last one. -/
theorem distinct_object (ms : List (String × Tree α)) :
    (object ms).distinct = object ((Members.names ms).eraseDups.filterMap fun name =>
      (Members.find? ms.reverse name).map fun t => (name, t.distinct)) := by
  have hnames : Members.names (ms.map fun m => (m.1, m.2.distinct)) = Members.names ms :=
    List.map_map
  rw [distinct, distinctMembers_eq, Members.ofList_eq, hnames, ← List.map_reverse]
  simp only [Members.find?_map, Option.map_map, Function.comp_def]

/-! ## Changes of the leaves -/

theorem names_mapMembers (f : α → β) (ms : List (String × Tree α)) :
    Members.names (mapMembers f ms) = Members.names ms := by
  induction ms with
  | nil => rfl
  | cons m rest ih => rw [mapMembers, Members.names_cons, Members.names_cons, ih]

mutual

/-- A change of the leaves leaves the names alone. -/
theorem namesNodup_map (f : α → β) : ∀ {t : Tree α}, NamesNodup t → NamesNodup (t.map f)
  | leaf _, _ => trivial
  | array _, h => namesNodupItems_mapItems f h
  | object ms, h =>
    ⟨(names_mapMembers f ms).symm ▸ h.1, namesNodupMembers_mapMembers f h.2⟩

theorem namesNodupItems_mapItems (f : α → β) :
    ∀ {items : List (Tree α)}, NamesNodupItems items → NamesNodupItems (mapItems f items)
  | [], _ => trivial
  | _ :: _, h => ⟨namesNodup_map f h.1, namesNodupItems_mapItems f h.2⟩

theorem namesNodupMembers_mapMembers (f : α → β) :
    ∀ {ms : List (String × Tree α)}, NamesNodupMembers ms → NamesNodupMembers (mapMembers f ms)
  | [], _ => trivial
  | _ :: _, h => ⟨namesNodup_map f h.1, namesNodupMembers_mapMembers f h.2⟩

end

end Reshape.Tree
