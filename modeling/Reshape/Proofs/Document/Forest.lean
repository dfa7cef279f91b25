import Mathlib.Order.WellFounded
import Mathlib.Data.List.Nodup
import Mathlib.Data.List.Perm.Subperm
import Reshape.Proofs.Document.Record
import Reshape.Proofs.Tree.Members

/-!
# Arenas that are forests

A node knows its container and its name, and a container lists its children; in a forest the two
records say the same, and walking up ends. While a copy is being laid out some nodes have a name
already but no container yet: they are called loose, and the invariant allows for them.

## Main definitions

* `Document.Content.links`: the children that a content lists, with their names.
* `Document.ForestWith`: the invariant, for given loose nodes.
* `Document.Forest`: the invariant without loose nodes.

## Main statements

* `ForestWith.ancestors_eq`: the bound on the walk upwards never cuts it.
* `ForestWith.alloc`, `Forest.relink`, `ForestWith.gather`: the three ways in which arenas grow or
  change keep the invariant.
-/

namespace Reshape.Document

/-- The children that a content lists, each with its name there. -/
def Content.links : Content → List (Option String × NodeId)
  | value _ => []
  | array items => items.map (none, ·)
  | object ms => ms.map fun m => (some m.1, m.2)

@[simp] theorem Content.map_snd_links (c : Content) : c.links.map Prod.snd = c.children := by
  cases c <;> simp [links, children, Function.comp_def]

theorem Content.mem_children_iff {c : Content} {x : NodeId} :
    x ∈ c.children ↔ ∃ k, (k, x) ∈ c.links := by
  simp [← map_snd_links]

theorem Content.mem_links_array {items : List NodeId} {k : Option String} {x : NodeId} :
    (k, x) ∈ (array items).links ↔ k = none ∧ x ∈ items := by
  simp [links, eq_comm, and_comm]

theorem Content.mem_links_object {ms : Members NodeId} {k : Option String} {x : NodeId} :
    (k, x) ∈ (object ms).links ↔ ∃ name, k = some name ∧ (name, x) ∈ ms := by
  simp only [links, List.mem_map, Prod.mk.injEq, Prod.exists]
  grind

/-- The names in a content are distinct. -/
def Content.NamesNodup (c : Content) : Prop :=
  ∀ ms, c = .object ms → (Members.names ms).Nodup

/-- One node is the container of the other. -/
def Contains (d : Document) (p c : NodeId) : Prop := d.parent c = some p

/-- The arena is a forest: containers and children agree about each other, and walking up ends.
Loose nodes have no container, but may have a name. -/
structure ForestWith (d : Document) (loose : List (Option String × NodeId)) : Prop where
  mem_links_iff : ∀ p k c, (k, c) ∈ (d.content p).links ↔ d.parent c = some p ∧ d.name c = k
  children_nodup : ∀ p, (d.children p).Nodup
  names_nodup : ∀ p, (d.content p).NamesNodup
  of_mem_loose : ∀ k c, (k, c) ∈ loose → c < d.nodes.size ∧ d.parent c = none ∧ d.name c = k
  name_eq_none : ∀ c, d.parent c = none → c ∉ loose.map Prod.snd → d.name c = none
  wellFounded : WellFounded d.Contains

/-- A forest without loose nodes. -/
abbrev Forest (d : Document) : Prop := d.ForestWith []

namespace ForestWith

variable {d : Document} {loose : List (Option String × NodeId)}

theorem mem_children_iff (h : d.ForestWith loose) {p c : NodeId} :
    c ∈ d.children p ↔ d.parent c = some p := by
  rw [children, Content.mem_children_iff]
  simp [h.mem_links_iff]

theorem lt_size_of_mem_children (h : d.ForestWith loose) {p c : NodeId} (hc : c ∈ d.children p) :
    c < d.nodes.size :=
  lt_size_of_parent (h.mem_children_iff.mp hc)

/-- A container is in use. -/
theorem parent_lt_size (h : d.ForestWith loose) {p c : NodeId} (hc : d.parent c = some p) :
    p < d.nodes.size := by
  refine Nat.lt_of_not_le ?_
  intro hn
  have hm := h.mem_children_iff.mpr hc
  rw [children, content_of_size_le hn] at hm
  cases hm

/-- A member is a child. -/
theorem mem_children_of_find? {object old : NodeId} {ms : Members NodeId} {name : String}
    (hc : d.content object = .object ms) (hf : ms.find? name = some old) :
    old ∈ d.children object := by
  rw [children, hc]
  exact List.mem_map_of_mem (Members.mem_of_find?_eq_some hf)

theorem parent_of_find? (h : d.ForestWith loose) {object old : NodeId} {ms : Members NodeId}
    {name : String} (hc : d.content object = .object ms) (hf : ms.find? name = some old) :
    d.parent old = some object :=
  h.mem_children_iff.mp (mem_children_of_find? hc hf)

/-! ## The walk upwards -/

/-- No node is above itself. -/
theorem not_transGen_self (h : d.ForestWith loose) (c : NodeId) :
    ¬Relation.TransGen d.Contains c c :=
  fun hc => h.wellFounded.transGen.irrefl.irrefl c hc

theorem transGen_of_mem_ancestorsWithin {fuel : Nat} {a c : NodeId}
    (ha : a ∈ d.ancestorsWithin fuel c) : Relation.TransGen d.Contains a c := by
  induction fuel generalizing c with
  | zero => simp [ancestorsWithin] at ha
  | succ fuel ih =>
    unfold ancestorsWithin at ha
    split at ha
    · simp at ha
    · next p hp =>
      rcases List.mem_cons.mp ha with rfl | ha
      · exact .single hp
      · exact (ih ha).tail hp

theorem nodup_ancestorsWithin (h : d.ForestWith loose) (fuel : Nat) (c : NodeId) :
    (c :: d.ancestorsWithin fuel c).Nodup := by
  induction fuel generalizing c with
  | zero => simp [ancestorsWithin]
  | succ fuel ih =>
    refine List.nodup_cons.mpr
      ⟨fun hc => h.not_transGen_self c (transGen_of_mem_ancestorsWithin hc), ?_⟩
    unfold ancestorsWithin
    split
    · simp
    · exact ih _

theorem lt_size_of_mem_ancestorsWithin (h : d.ForestWith loose) {fuel : Nat} {a c : NodeId}
    (ha : a ∈ d.ancestorsWithin fuel c) : a < d.nodes.size := by
  induction fuel generalizing c with
  | zero => simp [ancestorsWithin] at ha
  | succ fuel ih =>
    unfold ancestorsWithin at ha
    split at ha
    · simp at ha
    · next p hp =>
      rcases List.mem_cons.mp ha with rfl | ha
      · exact h.parent_lt_size hp
      · exact ih ha

/-- A chain of containers visits no node twice, so that it is shorter than the arena. -/
theorem length_ancestorsWithin_lt (h : d.ForestWith loose) (fuel : Nat) {c : NodeId}
    (hc : c < d.nodes.size) : (d.ancestorsWithin fuel c).length < d.nodes.size := by
  have hsub : (c :: d.ancestorsWithin fuel c) ⊆ List.range d.nodes.size := by
    intro a ha
    rcases List.mem_cons.mp ha with rfl | ha
    · exact List.mem_range.mpr hc
    · exact List.mem_range.mpr (h.lt_size_of_mem_ancestorsWithin ha)
  have hlen := (List.subperm_of_subset (h.nodup_ancestorsWithin fuel c) hsub).length_le
  rw [List.length_cons, List.length_range] at hlen
  omega

/-- A chain that stops before the bound is not changed by a greater bound. -/
theorem ancestorsWithin_succ {fuel : Nat} {c : NodeId}
    (hl : (d.ancestorsWithin fuel c).length < fuel) :
    d.ancestorsWithin (fuel + 1) c = d.ancestorsWithin fuel c := by
  induction fuel generalizing c with
  | zero => simp at hl
  | succ fuel ih =>
    rw [ancestorsWithin] at hl ⊢
    conv_rhs => rw [ancestorsWithin]
    split
    · rfl
    · next p hp =>
      simp only [hp, List.length_cons] at hl
      rw [ih (by omega)]

/-- The chain of containers of a node is its container and the chain of that. -/
theorem ancestors_eq (h : d.ForestWith loose) (c : NodeId) :
    d.ancestors c = (match d.parent c with
      | none => []
      | some p => p :: d.ancestors p) := by
  rcases hp : d.parent c with _ | p
  · unfold ancestors
    cases d.nodes.size <;> simp [ancestorsWithin, hp]
  · have hlt := h.length_ancestorsWithin_lt d.nodes.size (lt_size_of_parent hp)
    change d.ancestorsWithin d.nodes.size c = p :: d.ancestorsWithin d.nodes.size p
    rw [← ancestorsWithin_succ hlt, ancestorsWithin, hp]

theorem ancestors_of_parent_eq_none {c : NodeId} (hc : d.parent c = none) :
    d.ancestors c = [] := by
  unfold ancestors
  cases d.nodes.size <;> simp [ancestorsWithin, hc]

theorem ancestors_of_parent_eq_some (h : d.ForestWith loose) {p c : NodeId}
    (hc : d.parent c = some p) : d.ancestors c = p :: d.ancestors p := by
  rw [h.ancestors_eq, hc]

/-- A child is one level deeper than its container. -/
theorem length_ancestors_of_mem_children (h : d.ForestWith loose) {p c : NodeId}
    (hc : c ∈ d.children p) : (d.ancestors c).length = (d.ancestors p).length + 1 := by
  rw [h.ancestors_of_parent_eq_some (h.mem_children_iff.mp hc), List.length_cons]

theorem length_ancestors_lt (h : d.ForestWith loose) {c : NodeId} (hc : c < d.nodes.size) :
    (d.ancestors c).length < d.nodes.size :=
  h.length_ancestorsWithin_lt _ hc

/-- The ancestors of a node are what is above it. -/
theorem mem_ancestors_iff (h : d.ForestWith loose) {a c : NodeId} :
    a ∈ d.ancestors c ↔ Relation.TransGen d.Contains a c := by
  refine ⟨transGen_of_mem_ancestorsWithin, ?_⟩
  intro hac
  induction hac with
  | single hp => simp [h.ancestors_of_parent_eq_some hp]
  | tail _ hp ih => simp [h.ancestors_of_parent_eq_some hp, ih]

/-! ## Growth and change -/

/-- A new node without children leaves a forest. -/
theorem alloc (h : d.ForestWith loose) {c : Content} (hc : c.links = []) :
    (d.alloc c).1.ForestWith loose where
  mem_links_iff p k x := by
    rw [content_alloc, parent_alloc, name_alloc, ← h.mem_links_iff p k x]
    split
    · next hp => simp [hc, hp, content_of_size_le (Nat.le_refl d.nodes.size), show
        (Content.value Scalar.null).links = [] from rfl]
    · rfl
  children_nodup p := by
    rw [children, content_alloc]
    split
    · simp [← Content.map_snd_links, hc]
    · exact h.children_nodup p
  names_nodup p ms hms := by
    rw [content_alloc] at hms
    split at hms
    · subst hms
      simp [Members.names, List.map_eq_nil_iff.mp hc]
    · exact h.names_nodup p ms hms
  of_mem_loose k x hx := by
    obtain ⟨hlt, hp, hn⟩ := h.of_mem_loose k x hx
    simpa [hp, hn] using Nat.lt_succ_of_lt hlt
  name_eq_none x := by simpa using h.name_eq_none x
  wellFounded := by
    have he : (d.alloc c).1.Contains = d.Contains := by
      funext p x
      rw [Contains, parent_alloc, Contains]
    rw [he]
    exact h.wellFounded

/-- Nodes may get a container that is on top. -/
theorem wellFounded_of_contains {d' : Document} (h : WellFounded d.Contains) (top : NodeId)
    (htop : d'.parent top = none) (hstep : ∀ p x, d'.Contains p x → p = top ∨ d.Contains p x) :
    WellFounded d'.Contains := by
  have hacc : Acc d'.Contains top := by
    refine ⟨top, ?_⟩
    intro p hp
    rw [Contains, htop] at hp
    cases hp
  refine ⟨?_⟩
  intro x
  induction x using h.induction with
  | h x ih =>
    refine ⟨x, ?_⟩
    intro p hp
    rcases hstep p x hp with rfl | hp
    · exact hacc
    · exact ih p hp

/-- Every loose node gets a container that is made for it: the step that ends the copy of a
container, in which the children record its number before it is in use. -/
theorem gather {c : Content} (h : d.ForestWith (c.links ++ loose))
    (hnd : c.children.Nodup) (hdisj : ∀ x ∈ c.children, x ∉ loose.map Prod.snd)
    (hnames : c.NamesNodup) :
    ((d.placeIn d.nodes.size c.children).alloc c).1.ForestWith loose := by
  have hloose : ∀ x ∈ c.children, x < d.nodes.size ∧ d.parent x = none := by
    intro x hx
    obtain ⟨k, hk⟩ := Content.mem_children_iff.mp hx
    obtain ⟨hlt, hp, -⟩ := h.of_mem_loose k x (List.mem_append_left _ hk)
    exact ⟨hlt, hp⟩
  have hparent : ∀ x, ((d.placeIn d.nodes.size c.children).alloc c).1.parent x =
      if x ∈ c.children then some d.nodes.size else d.parent x := by
    intro x
    rw [parent_alloc, parent_placeIn fun i hi => (hloose i hi).1]
  have hcontent : ∀ x, ((d.placeIn d.nodes.size c.children).alloc c).1.content x =
      if x = d.nodes.size then c else d.content x := by
    intro x
    rw [content_alloc, content_placeIn, size_placeIn]
  have hnone : ∀ x, d.parent x ≠ some d.nodes.size := fun x hx =>
    Nat.lt_irrefl _ (h.parent_lt_size hx)
  refine ⟨?_, ?_, ?_, ?_, ?_, ?_⟩
  · intro p k x
    rw [hcontent, hparent, name_alloc, name_placeIn]
    split
    · next hp =>
      subst hp
      refine ⟨?_, fun ⟨hx, hk⟩ => ?_⟩
      · intro hk
        rw [if_pos (Content.mem_children_iff.mpr ⟨k, hk⟩)]
        exact ⟨rfl, (h.of_mem_loose k x (List.mem_append_left _ hk)).2.2⟩
      · split at hx
        · next hm =>
          obtain ⟨j, hj⟩ := Content.mem_children_iff.mp hm
          have hjk := (h.of_mem_loose j x (List.mem_append_left _ hj)).2.2
          exact (hk ▸ hjk) ▸ hj
        · exact absurd hx (hnone x)
    · next hp =>
      rw [h.mem_links_iff]
      split
      · next hm => simp [(hloose x hm).2, Ne.symm hp]
      · rfl
  · intro p
    rw [children, hcontent]
    split
    · exact hnd
    · exact h.children_nodup p
  · intro p
    rw [hcontent]
    split
    · exact hnames
    · exact h.names_nodup p
  · intro k x hx
    obtain ⟨hlt, hp, hn⟩ := h.of_mem_loose k x (List.mem_append_right _ hx)
    have hxc : x ∉ c.children := fun hc => hdisj x hc (List.mem_map_of_mem hx)
    refine ⟨?_, ?_, ?_⟩
    · rw [size_alloc, size_placeIn]
      exact Nat.lt_succ_of_lt hlt
    · rw [hparent, if_neg hxc, hp]
    · rw [name_alloc, name_placeIn, hn]
  · intro x hp hx
    rw [hparent] at hp
    split at hp
    · cases hp
    · next hm =>
      rw [name_alloc, name_placeIn]
      exact h.name_eq_none x hp (by simp [hm, hx])
  · -- The new node is on top, and every other edge was there before.
    refine wellFounded_of_contains h.wellFounded d.nodes.size ?_ ?_
    · rw [hparent, if_neg fun hm => Nat.lt_irrefl _ (hloose _ hm).1,
        parent_of_size_le (Nat.le_refl _)]
    · intro p x hp
      rw [Contains, hparent] at hp
      split at hp
      · cases hp
        exact .inl rfl
      · exact .inr hp

end ForestWith

/-- Walking up still ends when one node lists other children, if those that are new there are not
around it. -/
theorem Forest.wellFounded_relink {d d' : Document} (h : d.Forest) (p : NodeId)
    (hplace : ∀ c, d.parent c ≠ some p → d'.parent c ≠ some p → d'.parent c = d.parent c)
    (hnew : ∀ c, d'.parent c = some p → d.parent c ≠ some p → c ≠ p ∧ c ∉ d.ancestors p)
    (hold : ∀ c, d.parent c = some p → d'.parent c ≠ some p → d'.parent c = none) :
    WellFounded d'.Contains := by
  -- Above `p` nothing has changed, so that the walk from there still ends.
  have hup : ∀ q, Relation.ReflTransGen d.Contains q p → Acc d'.Contains q := by
    intro q
    induction q using h.wellFounded.induction with
    | h q ih =>
      intro hqp
      refine ⟨q, fun a ha => ih a ?_ (.head ?_ hqp)⟩
      all_goals
        have hold : d.parent q ≠ some p := fun hp =>
          h.not_transGen_self p (.head' hp hqp)
        have hnew : d'.parent q ≠ some p := by
          intro hp
          obtain ⟨hne, hnot⟩ := hnew q hp hold
          rcases Relation.reflTransGen_iff_eq_or_transGen.mp hqp with he | ht
          · exact hne he.symm
          · exact hnot (h.mem_ancestors_iff.mpr ht)
        rw [Contains, ← hplace q hold hnew]
        exact ha
  refine ⟨?_⟩
  intro c
  induction c using h.wellFounded.induction with
  | h c ih =>
    refine ⟨c, ?_⟩
    intro a ha
    by_cases hap : a = p
    · exact hap ▸ hup p .refl
    · have hnot : d'.parent c ≠ some p := by
        rw [ha]
        simpa using hap
      have hc : d.parent c ≠ some p := by
        intro hp
        rw [Contains, hold c hp hnot] at ha
        cases ha
      exact ih a (by rw [Contains, ← hplace c hc hnot]; exact ha)

/-- Changing what one node lists keeps a forest, if the children that are new there had no container
and are not around it, and those that are no longer there lose their place. -/
theorem Forest.relink {d d' : Document} (h : d.Forest) (p : NodeId)
    (hcontent : ∀ q, q ≠ p → d'.content q = d.content q)
    (hplace : ∀ c, d.parent c ≠ some p → d'.parent c ≠ some p →
      d'.parent c = d.parent c ∧ d'.name c = d.name c)
    (hlinks : ∀ k c, (k, c) ∈ (d'.content p).links ↔ d'.parent c = some p ∧ d'.name c = k)
    (hnodup : (d'.children p).Nodup) (hnames : (d'.content p).NamesNodup)
    (hnew : ∀ c, d'.parent c = some p → d.parent c ≠ some p →
      d.parent c = none ∧ c ≠ p ∧ c ∉ d.ancestors p)
    (hold : ∀ c, d.parent c = some p → d'.parent c ≠ some p →
      d'.parent c = none ∧ d'.name c = none) : d'.Forest where
  mem_links_iff q k c := by
    by_cases hq : q = p
    · exact hq ▸ hlinks k c
    rw [hcontent q hq, h.mem_links_iff]
    by_cases hc : d.parent c = some p
    · have : ¬some p = some q := by simpa using Ne.symm hq
      by_cases hc' : d'.parent c = some p
      · simp [hc, hc', this]
      · simp [hc, (hold c hc hc').1, this]
    · by_cases hc' : d'.parent c = some p
      · simp [(hnew c hc' hc).1, hc', Ne.symm hq]
      · obtain ⟨hp, hn⟩ := hplace c hc hc'
        rw [hp, hn]
  children_nodup q := by
    by_cases hq : q = p
    · exact hq ▸ hnodup
    · rw [children, hcontent q hq]
      exact h.children_nodup q
  names_nodup q := by
    by_cases hq : q = p
    · exact hq ▸ hnames
    · rw [hcontent q hq]
      exact h.names_nodup q
  of_mem_loose := by simp
  name_eq_none c hc _ := by
    have hc' : d'.parent c ≠ some p := by simp [hc]
    by_cases hp : d.parent c = some p
    · exact (hold c hp hc').2
    · obtain ⟨hpc, hn⟩ := hplace c hp hc'
      rw [hn, h.name_eq_none c (hpc ▸ hc) (by simp)]
  wellFounded := by
    refine h.wellFounded_relink p ?_ ?_ ?_
    · intro c hc hc'
      exact (hplace c hc hc').1
    · intro c hc' hc
      exact (hnew c hc' hc).2
    · intro c hc hc'
      exact (hold c hc hc').1

end Reshape.Document
