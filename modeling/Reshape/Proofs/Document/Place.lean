import Reshape.Proofs.Decimal.Digits
import Reshape.Proofs.Document.Reachable

/-!
# Places

The key of a node leads from its container to the node, and the rows of keys of the nodes around it
are the beginnings of its path. So within one tree a path belongs to one node.

## Main statements

* `ForestWith.childByName?_eq_some_iff`, `ForestWith.childAt?_of_index?`: keys lead down.
* `ForestWith.path_of_parent`: the path of a child.
* `ForestWith.exists_path_eq_iff`: the beginnings of a path.
* `ForestWith.eq_of_key_eq`, `ForestWith.eq_of_path_eq`: keys and paths tell nodes apart.
-/

namespace Reshape.Document.ForestWith

variable {d : Document} (h : d.Forest)
include h

/-! ## Keys -/

/-- The name of a member leads from its object to it. -/
theorem childByName?_eq_some_iff {p c : NodeId} {name : String} :
    d.childByName? p name = some c ↔ d.parent c = some p ∧ d.name c = some name := by
  rw [name_eq_some_iff h, childByName?]
  constructor
  · intro hc
    split at hc
    · next ms hms =>
      have hp := h.parent_of_find? hms hc
      exact ⟨hp, p, ms, hp, hms, hc⟩
    · cases hc
  · rintro ⟨hp, p', ms, hp', hms, hf⟩
    cases hp.symm.trans hp'
    simpa [hms] using hf

omit h in
/-- The position of an element leads from its array to it. -/
theorem childAt?_of_index? {p c : NodeId} {i : Nat} (hp : d.parent c = some p)
    (hi : d.index? c = some i) : d.childAt? p i = some c := by
  simp only [index?, hp] at hi
  split at hi
  · next items hitems =>
    obtain ⟨hlt, hget, -⟩ := List.idxOf?_eq_some_iff.mp hi
    simp [childAt?, children, hitems, Content.children, hlt, hget]
  · cases hi

/-- The key of a node in an object is its name, and the key of a node in an array its position. -/
theorem key_eq_some_iff {c : NodeId} {k : String} :
    d.key c = some k ↔ d.name c = some k ∨ ∃ i, d.index? c = some i ∧ k = indexText i := by
  have hname : ∀ i, d.index? c = some i → d.name c = none := by
    intro i hi
    refine Option.eq_none_iff_forall_ne_some.mpr fun name hn => ?_
    obtain ⟨p, ms, hp, hms, -⟩ := (name_eq_some_iff h).mp hn
    simp [index?, hp, hms] at hi
  rw [key]
  rcases hn : d.name c with _ | name
  · simp [eq_comm]
  · have hi : d.index? c = none :=
      Option.eq_none_iff_forall_ne_some.mpr fun i hi => by simp [hname i hi] at hn
    simp [hi]

/-! ## Paths -/

theorem path_of_parent_eq_none {c : NodeId} (hp : d.parent c = none) : d.path c = [] := by
  rw [path_eq h, (key_eq_none_iff h).mpr hp]

/-- The path of a child is that of its container and its key. -/
theorem path_of_parent {p c : NodeId} (hp : d.parent c = some p) :
    ∃ k, d.key c = some k ∧ d.path c = d.path p ++ [k] := by
  have hk : d.key c ≠ none := by simp [key_eq_none_iff h, hp]
  obtain ⟨k, hk⟩ := Option.ne_none_iff_exists'.mp hk
  exact ⟨k, hk, by rw [path_eq h, hk, hp]⟩

theorem path_eq_nil_iff {c : NodeId} : d.path c = [] ↔ d.parent c = none := by
  refine ⟨fun hpath => ?_, path_of_parent_eq_none h⟩
  rcases hp : d.parent c with _ | p
  · rfl
  · obtain ⟨k, -, hk⟩ := path_of_parent h hp
    simp [hk] at hpath

/-- What is around a node has the same topmost ancestor. -/
theorem top_of_mem_ancestors {a c : NodeId} (ha : a ∈ d.ancestors c) : d.top a = d.top c := by
  induction c using h.wellFounded.induction with
  | h c ih =>
    rcases hp : d.parent c with _ | p
    · simp [ancestors_of_parent_eq_none hp] at ha
    · rw [h.ancestors_of_parent_eq_some hp, List.mem_cons] at ha
      have htop : d.top c = d.top p := by rw [top_eq h, hp]
      rcases ha with rfl | ha
      · exact htop.symm
      · rw [htop, ih p hp ha]

/-- The beginnings of a path are the paths of the node and of what is around it. -/
theorem exists_path_eq_iff {c : NodeId} {keys : List String} :
    (∃ a ∈ c :: d.ancestors c, d.path a = keys) ↔ keys <+: d.path c := by
  induction c using h.wellFounded.induction with
  | h c ih =>
    rcases hp : d.parent c with _ | p
    · simp [ancestors_of_parent_eq_none hp, path_of_parent_eq_none h hp, eq_comm]
    · obtain ⟨k, -, hpath⟩ := path_of_parent h hp
      rw [h.ancestors_of_parent_eq_some hp, hpath, List.prefix_concat_iff, ← ih p hp, ← hpath]
      grind

/-! ## One node for each path -/

omit h in
/-- Positions are told apart by their texts. -/
theorem indexText_inj {i j : Nat} : indexText i = indexText j ↔ i = j := by
  refine ⟨fun hij => ?_, congrArg indexText⟩
  have hdigits : Decimal.digits i = Decimal.digits j := String.ofList_injective hij
  rw [← Decimal.ofDigits_digits i, hdigits, Decimal.ofDigits_digits]

/-- An array gives its elements no names. -/
theorem name_ne_of_index? {p c c' : NodeId} {i : Nat} {name : String} (hc : d.parent c = some p)
    (hc' : d.parent c' = some p) (hi : d.index? c = some i) : d.name c' ≠ some name := by
  intro hn
  obtain ⟨p', ms, hp', hms, -⟩ := (name_eq_some_iff h).mp hn
  cases hc'.symm.trans hp'
  simp [index?, hc, hms] at hi

/-- A container has one child of each key. -/
theorem eq_of_key_eq {p c c' : NodeId} {k : String} (hc : d.parent c = some p)
    (hc' : d.parent c' = some p) (hk : d.key c = some k) (hk' : d.key c' = some k) : c = c' := by
  rcases (key_eq_some_iff h).mp hk with hn | ⟨i, hi, rfl⟩ <;>
    rcases (key_eq_some_iff h).mp hk' with hn' | ⟨j, hj, hij⟩
  · have hfind := (childByName?_eq_some_iff h).mpr ⟨hc, hn⟩
    rw [(childByName?_eq_some_iff h).mpr ⟨hc', hn'⟩] at hfind
    exact (Option.some.inj hfind).symm
  · exact absurd hn (name_ne_of_index? h hc' hc hj)
  · exact absurd hn' (name_ne_of_index? h hc hc' hi)
  · obtain rfl := indexText_inj.mp hij
    have hat := childAt?_of_index? hc hi
    rw [childAt?_of_index? hc' hj] at hat
    exact (Option.some.inj hat).symm

/-- Nodes of one tree that have the same path are the same node. -/
theorem eq_of_path_eq {c c' : NodeId} (htop : d.top c = d.top c') (hpath : d.path c = d.path c') :
    c = c' := by
  induction c using h.wellFounded.induction generalizing c' with
  | h c ih =>
    rcases hp : d.parent c with _ | p <;> rcases hp' : d.parent c' with _ | p'
    · rwa [top_eq h, top_eq h, hp, hp'] at htop
    · obtain ⟨k, -, hk⟩ := path_of_parent h hp'
      simp [path_of_parent_eq_none h hp, hk] at hpath
    · obtain ⟨k, -, hk⟩ := path_of_parent h hp
      simp [path_of_parent_eq_none h hp', hk] at hpath
    · obtain ⟨k, hkey, hk⟩ := path_of_parent h hp
      obtain ⟨k', hkey', hk'⟩ := path_of_parent h hp'
      rw [hk, hk'] at hpath
      obtain ⟨hup, hlast⟩ := List.append_inj' hpath rfl
      obtain rfl : k = k' := List.singleton_inj.mp hlast
      rw [top_eq h, top_eq h, hp, hp'] at htop
      obtain rfl := ih p hp htop hup
      exact eq_of_key_eq h hp hp' hkey hkey'

end Reshape.Document.ForestWith
