import Reshape.Proofs.Tree.Distinct

/-!
# Leaves and levels

Properties of all leaves of a tree, and how deep its containers nest.

## Main definitions

* `Tree.All`: a property holds of every leaf.
* `Tree.depth`: how many containers stand inside each other.
-/

namespace Reshape.Tree

variable {α β : Type}

/-! ## Leaves -/

mutual

/-- Every leaf of the tree has the property. -/
def All (p : α → Prop) : Tree α → Prop
  | leaf a => p a
  | array items => AllItems p items
  | object ms => AllMembers p ms

/-- Every leaf of the elements has the property. -/
def AllItems (p : α → Prop) : List (Tree α) → Prop
  | [] => True
  | t :: rest => All p t ∧ AllItems p rest

/-- Every leaf of the members has the property. -/
def AllMembers (p : α → Prop) : List (String × Tree α) → Prop
  | [] => True
  | (_, t) :: rest => All p t ∧ AllMembers p rest

end

theorem allMembers_iff {p : α → Prop} {ms : List (String × Tree α)} :
    AllMembers p ms ↔ ∀ t ∈ ms.map Prod.snd, All p t := by
  induction ms with
  | nil => simp [AllMembers]
  | cons m rest ih => simp [AllMembers, ih]

mutual

/-- Resolving repeated names adds no leaves. -/
theorem All.distinct {p : α → Prop} : ∀ {t : Tree α}, t.All p → t.distinct.All p
  | leaf _, h => h
  | array _, h => AllItems.distinct h
  | object _, h => allMembers_iff.mpr fun t ht =>
    allMembers_iff.mp (AllMembers.distinct h) t (Members.mem_values_ofList ht)

theorem AllItems.distinct {p : α → Prop} :
    ∀ {ts : List (Tree α)}, AllItems p ts → AllItems p (distinctItems ts)
  | [], _ => trivial
  | _ :: _, h => ⟨h.1.distinct, AllItems.distinct h.2⟩

theorem AllMembers.distinct {p : α → Prop} :
    ∀ {ms : List (String × Tree α)}, AllMembers p ms → AllMembers p (distinctMembers ms)
  | [], _ => trivial
  | _ :: _, h => ⟨h.1.distinct, AllMembers.distinct h.2⟩

end

mutual

theorem All.mono {p q : α → Prop} (hpq : ∀ a, p a → q a) : ∀ {t : Tree α}, t.All p → t.All q
  | leaf a, h => hpq a h
  | array _, h => AllItems.mono hpq h
  | object _, h => AllMembers.mono hpq h

theorem AllItems.mono {p q : α → Prop} (hpq : ∀ a, p a → q a) :
    ∀ {ts : List (Tree α)}, AllItems p ts → AllItems q ts
  | [], _ => trivial
  | _ :: _, h => ⟨h.1.mono hpq, AllItems.mono hpq h.2⟩

theorem AllMembers.mono {p q : α → Prop} (hpq : ∀ a, p a → q a) :
    ∀ {ms : List (String × Tree α)}, AllMembers p ms → AllMembers q ms
  | [], _ => trivial
  | _ :: _, h => ⟨h.1.mono hpq, AllMembers.mono hpq h.2⟩

end

mutual

theorem All.map {p : α → Prop} {q : β → Prop} {f : α → β} (hf : ∀ a, p a → q (f a)) :
    ∀ {t : Tree α}, t.All p → (t.map f).All q
  | leaf a, h => hf a h
  | array _, h => AllItems.mapItems hf h
  | object _, h => AllMembers.mapMembers hf h

theorem AllItems.mapItems {p : α → Prop} {q : β → Prop} {f : α → β} (hf : ∀ a, p a → q (f a)) :
    ∀ {ts : List (Tree α)}, AllItems p ts → AllItems q (Tree.mapItems f ts)
  | [], _ => trivial
  | _ :: _, h => ⟨h.1.map hf, AllItems.mapItems hf h.2⟩

theorem AllMembers.mapMembers {p : α → Prop} {q : β → Prop} {f : α → β}
    (hf : ∀ a, p a → q (f a)) :
    ∀ {ms : List (String × Tree α)}, AllMembers p ms → AllMembers q (Tree.mapMembers f ms)
  | [], _ => trivial
  | _ :: _, h => ⟨h.1.map hf, AllMembers.mapMembers hf h.2⟩

end

mutual

/-- What every image of a leaf has, every leaf of the changed tree has. -/
theorem all_map {q : β → Prop} {f : α → β} (hf : ∀ a, q (f a)) : ∀ t : Tree α, (t.map f).All q
  | leaf a => hf a
  | array ts => allItems_mapItems hf ts
  | object ms => allMembers_mapMembers hf ms

theorem allItems_mapItems {q : β → Prop} {f : α → β} (hf : ∀ a, q (f a)) :
    ∀ ts : List (Tree α), AllItems q (mapItems f ts)
  | [] => trivial
  | t :: ts => ⟨all_map hf t, allItems_mapItems hf ts⟩

theorem allMembers_mapMembers {q : β → Prop} {f : α → β} (hf : ∀ a, q (f a)) :
    ∀ ms : List (String × Tree α), AllMembers q (mapMembers f ms)
  | [] => trivial
  | (_, t) :: ms => ⟨all_map hf t, allMembers_mapMembers hf ms⟩

end

mutual

/-- A change that leaves every leaf alone changes nothing. -/
theorem map_eq_self {f : α → α} : ∀ {t : Tree α}, t.All (fun a => f a = a) → t.map f = t
  | leaf _, h => congrArg leaf h
  | array _, h => congrArg array (mapItems_eq_self h)
  | object _, h => congrArg object (mapMembers_eq_self h)

theorem mapItems_eq_self {f : α → α} :
    ∀ {ts : List (Tree α)}, AllItems (fun a => f a = a) ts → mapItems f ts = ts
  | [], _ => rfl
  | _ :: _, h => by rw [mapItems, map_eq_self h.1, mapItems_eq_self h.2]

theorem mapMembers_eq_self {f : α → α} :
    ∀ {ms : List (String × Tree α)}, AllMembers (fun a => f a = a) ms → mapMembers f ms = ms
  | [], _ => rfl
  | _ :: _, h => by rw [mapMembers, map_eq_self h.1, mapMembers_eq_self h.2]

end

mutual

/-- Two changes of the leaves one after the other are one change. -/
theorem map_map {γ : Type} (g : β → γ) (f : α → β) :
    ∀ t : Tree α, (t.map f).map g = t.map fun a => g (f a)
  | leaf _ => rfl
  | array ts => congrArg array (mapItems_mapItems g f ts)
  | object ms => congrArg object (mapMembers_mapMembers g f ms)

theorem mapItems_mapItems {γ : Type} (g : β → γ) (f : α → β) :
    ∀ ts : List (Tree α), mapItems g (mapItems f ts) = mapItems (fun a => g (f a)) ts
  | [] => rfl
  | t :: ts => by simp only [mapItems, map_map g f t, mapItems_mapItems g f ts]

theorem mapMembers_mapMembers {γ : Type} (g : β → γ) (f : α → β) :
    ∀ ms : List (String × Tree α),
      mapMembers g (mapMembers f ms) = mapMembers (fun a => g (f a)) ms
  | [] => rfl
  | (_, t) :: ms => by simp only [mapMembers, map_map g f t, mapMembers_mapMembers g f ms]

end

section partialMap

variable {f : α → Option β} {g : α → β} {p : α → Prop}

mutual

/-- A change of leaves that may fail succeeds where it succeeds at every leaf. -/
theorem map_eq_map_some_iff (h : ∀ a b, f a = some b ↔ p a ∧ b = g a) :
    ∀ {s : Tree α} {t : Tree β}, s.map f = t.map some ↔ s.All p ∧ t = s.map g
  | leaf a, leaf b => by simp [map, All, h]
  | array ss, array ts => by simp [map, All, mapItems_eq_mapItems_some_iff h]
  | object ms, object ns => by simp [map, All, mapMembers_eq_mapMembers_some_iff h]
  | leaf _, array _ | leaf _, object _ | array _, leaf _ | array _, object _
  | object _, leaf _ | object _, array _ => by simp [map]

theorem mapItems_eq_mapItems_some_iff (h : ∀ a b, f a = some b ↔ p a ∧ b = g a) :
    ∀ {ss : List (Tree α)} {ts : List (Tree β)},
      mapItems f ss = mapItems some ts ↔ AllItems p ss ∧ ts = mapItems g ss
  | [], [] => by simp [mapItems, AllItems]
  | [], _ :: _ => by simp [mapItems]
  | _ :: _, [] => by simp [mapItems]
  | s :: ss, t :: ts => by
    simp only [mapItems, AllItems, List.cons.injEq, map_eq_map_some_iff h,
      mapItems_eq_mapItems_some_iff h]
    exact and_and_and_comm

theorem mapMembers_eq_mapMembers_some_iff (h : ∀ a b, f a = some b ↔ p a ∧ b = g a) :
    ∀ {ms : List (String × Tree α)} {ns : List (String × Tree β)},
      mapMembers f ms = mapMembers some ns ↔ AllMembers p ms ∧ ns = mapMembers g ms
  | [], [] => by simp [mapMembers, AllMembers]
  | [], _ :: _ => by simp [mapMembers]
  | _ :: _, [] => by simp [mapMembers]
  | (k, s) :: ms, (k', t) :: ns => by
    simp only [mapMembers, AllMembers, List.cons.injEq, Prod.mk.injEq, map_eq_map_some_iff h,
      mapMembers_eq_mapMembers_some_iff h, eq_comm (a := k)]
    grind

end

end partialMap

section inversion

variable {γ : Type} {f : α → γ} {g : β → γ}

theorem eq_nil_of_mapItems_eq {ts : List (Tree β)} (h : mapItems f [] = mapItems g ts) :
    ts = [] := by
  cases ts with
  | nil => rfl
  | cons t ts => cases h

theorem exists_cons_of_mapItems_eq {s : Tree α} {ss : List (Tree α)} {ts : List (Tree β)}
    (h : mapItems f (s :: ss) = mapItems g ts) :
    ∃ t ts', ts = t :: ts' ∧ s.map f = t.map g ∧ mapItems f ss = mapItems g ts' := by
  cases ts with
  | nil => cases h
  | cons t ts => exact ⟨t, ts, rfl, List.cons.inj h⟩

theorem eq_nil_of_mapMembers_eq {ns : List (String × Tree β)}
    (h : mapMembers f [] = mapMembers g ns) : ns = [] := by
  cases ns with
  | nil => rfl
  | cons n ns => cases h

theorem exists_cons_of_mapMembers_eq {name : String} {s : Tree α} {ms : List (String × Tree α)}
    {ns : List (String × Tree β)} (h : mapMembers f ((name, s) :: ms) = mapMembers g ns) :
    ∃ t ns', ns = (name, t) :: ns' ∧ s.map f = t.map g ∧ mapMembers f ms = mapMembers g ns' := by
  cases ns with
  | nil => cases h
  | cons n ns =>
    obtain ⟨h, hms⟩ := List.cons.inj h
    obtain ⟨hname, ht⟩ := Prod.mk.inj h
    exact ⟨n.2, ns, by rw [hname], ht, hms⟩

end inversion

/-! ## Levels -/

mutual

/-- How many containers stand inside each other. -/
def depth : Tree α → Nat
  | leaf _ => 0
  | array items => depthItems items + 1
  | object ms => depthMembers ms + 1

/-- The levels of the deepest element. -/
def depthItems : List (Tree α) → Nat
  | [] => 0
  | t :: rest => max (depth t) (depthItems rest)

/-- The levels of the deepest member. -/
def depthMembers : List (String × Tree α) → Nat
  | [] => 0
  | (_, t) :: rest => max (depth t) (depthMembers rest)

end

mutual

/-- A change of the leaves keeps the levels. -/
theorem depth_map (f : α → β) : ∀ t : Tree α, (t.map f).depth = t.depth
  | leaf _ => rfl
  | array ts => congrArg Nat.succ (depthItems_mapItems f ts)
  | object ms => congrArg Nat.succ (depthMembers_mapMembers f ms)

theorem depthItems_mapItems (f : α → β) :
    ∀ ts : List (Tree α), depthItems (mapItems f ts) = depthItems ts
  | [] => rfl
  | t :: ts => by rw [mapItems, depthItems, depthItems, depth_map, depthItems_mapItems]

theorem depthMembers_mapMembers (f : α → β) :
    ∀ ms : List (String × Tree α), depthMembers (mapMembers f ms) = depthMembers ms
  | [] => rfl
  | (_, t) :: ms => by
    rw [mapMembers, depthMembers, depthMembers, depth_map, depthMembers_mapMembers]

end

theorem depthMembers_le_iff {n : Nat} {ms : List (String × Tree α)} :
    depthMembers ms ≤ n ↔ ∀ t ∈ ms.map Prod.snd, depth t ≤ n := by
  induction ms with
  | nil => simp [depthMembers]
  | cons m rest ih =>
    simp only [depthMembers, List.map_cons, List.forall_mem_cons, Nat.max_le, ih]

mutual

/-- Resolving repeated names adds no levels. -/
theorem depth_distinct_le : ∀ t : Tree α, t.distinct.depth ≤ t.depth
  | leaf _ => Nat.le_refl _
  | array ts => Nat.succ_le_succ (depthItems_distinctItems_le ts)
  | object ms => Nat.succ_le_succ (depthMembers_le_iff.mpr fun t ht =>
    depthMembers_le_iff.mp (depthMembers_distinctMembers_le ms) t (Members.mem_values_ofList ht))

theorem depthItems_distinctItems_le :
    ∀ ts : List (Tree α), depthItems (distinctItems ts) ≤ depthItems ts
  | [] => Nat.le_refl _
  | t :: ts => by
    have h₁ := depth_distinct_le t
    have h₂ := depthItems_distinctItems_le ts
    rw [distinctItems, depthItems, depthItems]
    omega

theorem depthMembers_distinctMembers_le :
    ∀ ms : List (String × Tree α), depthMembers (distinctMembers ms) ≤ depthMembers ms
  | [] => Nat.le_refl _
  | (_, t) :: ms => by
    have h₁ := depth_distinct_le t
    have h₂ := depthMembers_distinctMembers_le ms
    rw [distinctMembers, depthMembers, depthMembers]
    omega

end

end Reshape.Tree
