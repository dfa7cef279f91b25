import Reshape.Proofs.Document.Place
import Reshape.Proofs.Path.Key

/-!
# Following keys

The keys of a path lead back: taken one after the other from the topmost ancestor, by name in an
object and by position in an array, they end in the node whose path they are. So they do in every
tree of the arena, whether the root stands on top of it or not.

## Main definitions

* `Document.childByKey?`, `Document.follow?`: one key, and a row of them.
* `Content.keyAt?`: the key that belongs to a position.

## Main statements

* `ForestWith.childByKey?_of_key`, `ForestWith.follow?_path`: one key, and a path.
* `ForestWith.exists_position`: the position of a child.
* `Document.follow_path`.
-/

namespace Reshape.Document

/-- The child of a key: a member of an object by its name, or an element of an array by the position
that the key is read as. -/
def childByKey? (d : Document) (id : NodeId) (key : String) : Option NodeId :=
  match d.content id with
  | .object _ => d.childByName? id key
  | .array _ => (readIndex? key.toList).bind (d.childAt? id)
  | .value _ => none

/-- The node at the end of a row of keys, if each of them has a child. -/
def follow? (d : Document) (id : NodeId) (keys : List String) : Option NodeId :=
  keys.foldlM d.childByKey? id

/-- The key that belongs to a position: the name of a member, or the text of the position itself. -/
def Content.keyAt? : Content → Nat → Option String
  | value _, _ => none
  | array _, i => some (indexText i)
  | object ms, i => ms[i]?.map Prod.fst

namespace ForestWith

variable {d : Document} (h : d.Forest)
include h

/-! ## Down -/

/-- The key of a child leads from its container to it. -/
theorem childByKey?_of_key {p c : NodeId} {k : String} (hp : d.parent c = some p)
    (hk : d.key c = some k) : d.childByKey? p k = some c := by
  rcases (key_eq_some_iff h).mp hk with hn | ⟨i, hi, rfl⟩
  · obtain ⟨p', ms, hp', hms, -⟩ := (name_eq_some_iff h).mp hn
    cases hp.symm.trans hp'
    rw [childByKey?, hms]
    exact (childByName?_eq_some_iff h).mpr ⟨hp, hn⟩
  · obtain ⟨items, hitems⟩ : ∃ items, d.content p = .array items := by
      simp only [index?, hp] at hi
      split at hi
      · next items hitems => exact ⟨items, hitems⟩
      · cases hi
    rw [childByKey?, hitems]
    simp [indexText, readIndex?_digits, childAt?_of_index? hp hi]

/-- The keys of a path lead from the topmost ancestor to the node. -/
theorem follow?_path (n : NodeId) : d.follow? (d.top n) (d.path n) = some n := by
  induction n using h.wellFounded.induction with
  | h n ih =>
    rcases hp : d.parent n with _ | p
    · rw [path_of_parent_eq_none h hp, top_eq h, hp]
      rfl
    · obtain ⟨k, hk, hpath⟩ := path_of_parent h hp
      have hfollow : d.follow? (d.top p) (d.path p) = some p := ih p hp
      have htop : d.top n = d.top p := by rw [top_eq h, hp]
      rw [follow?] at hfollow ⊢
      simp [hpath, htop, List.foldlM_append, hfollow, childByKey?_of_key h hp hk]

/-! ## Positions -/

/-- The key of the child at a position is the one that belongs to that position. -/
theorem key_eq_keyAt? {p c : NodeId} {i : Nat} (hi : (d.children p)[i]? = some c) :
    d.key c = (d.content p).keyAt? i := by
  have hp : d.parent c = some p := h.mem_children_iff.mp (List.mem_of_getElem? hi)
  have hnodup := h.children_nodup p
  rw [children] at hi hnodup
  rcases hc : d.content p with s | items | ms
  · simp [hc, Content.children] at hi
  · rw [hc, Content.children] at hi hnodup
    obtain ⟨hlt, hget⟩ := List.getElem?_eq_some_iff.mp hi
    have hfirst : ∀ j (_ : j < i), items[j] ≠ c := fun j hj hjc =>
      Nat.ne_of_lt hj (hnodup.getElem_inj_iff.mp (hjc.trans hget.symm))
    have hindex : d.index? c = some i := by
      simpa [index?, hp, hc] using List.idxOf?_eq_some_iff.mpr ⟨hlt, hget, hfirst⟩
    exact (key_eq_some_iff h).mpr (.inr ⟨i, hindex, rfl⟩)
  · rw [hc, Content.children, List.getElem?_map, Option.map_eq_some_iff] at hi
    obtain ⟨⟨name, child⟩, hm, hchild⟩ := hi
    replace hm : ms[i]? = some (name, c) := hchild ▸ hm
    have hlink : (some name, c) ∈ (d.content p).links := by
      rw [hc, Content.mem_links_object]
      exact ⟨name, rfl, List.mem_of_getElem? hm⟩
    have hname := ((h.mem_links_iff p (some name) c).mp hlink).2
    simpa [Content.keyAt?, hm] using (key_eq_some_iff h).mpr (.inl hname)

/-- A child stands at one position of its container. -/
theorem exists_position {p c : NodeId} (hc : c ∈ d.children p) :
    ∃ i : Nat, ∀ j : Nat, (d.children p)[j]? = some c ↔ j = i := by
  obtain ⟨i, hi⟩ := List.mem_iff_getElem?.mp hc
  refine ⟨i, fun j => ⟨fun hj => ?_, fun hj => hj ▸ hi⟩⟩
  obtain ⟨hlt, -⟩ := List.getElem?_eq_some_iff.mp hj
  exact (List.getElem?_inj hlt (h.children_nodup p)).mp (hj.trans hi.symm)

/-- Different children of a container have different keys. -/
theorem nodup_map_key (p : NodeId) : ((d.children p).map d.key).Nodup := by
  refine (h.children_nodup p).map_on ?_
  intro c hc c' hc' heq
  have hp := h.mem_children_iff.mp hc
  obtain ⟨k, hk, -⟩ := path_of_parent h hp
  exact eq_of_key_eq h hp (h.mem_children_iff.mp hc') hk (heq ▸ hk)

end ForestWith

/-! ## Documents -/

/-- Keys and paths lead back. The path of a node, followed from its topmost ancestor, ends in the
node, and no other node of the same tree has that path. Every child stands at one position of its
container and has the key of that position, so that the keys in a container are all different. -/
theorem follow_path {d : Document} (h : d.WellFormed) :
    (∀ n, d.follow? (d.top n) (d.path n) = some n) ∧
    (∀ n m, d.top n = d.top m → d.path n = d.path m → n = m) ∧
    (∀ p, ∀ c ∈ d.children p, ∃ (i : Nat) (k : String),
      (∀ j : Nat, (d.children p)[j]? = some c ↔ j = i) ∧
        (d.content p).keyAt? i = some k ∧ d.key c = some k) ∧
    ∀ p, ((d.children p).map d.key).Nodup := by
  have hforest := h.rooted.forest
  refine ⟨ForestWith.follow?_path hforest, fun n m => ForestWith.eq_of_path_eq hforest,
    fun p c hc => ?_, ForestWith.nodup_map_key hforest⟩
  obtain ⟨i, hi⟩ := ForestWith.exists_position hforest hc
  obtain ⟨k, hk, -⟩ := ForestWith.path_of_parent hforest (hforest.mem_children_iff.mp hc)
  exact ⟨i, k, hi, ForestWith.key_eq_keyAt? hforest ((hi i).mpr rfl) ▸ hk, hk⟩

/-- In an array that has been taken out of its object, after its first element was removed: the
path of what is below begins at the array, and the position of the element has changed. -/
theorem follow_path_detached :
    let elements := [.leaf .null, .object [("x", .leaf .null)]]
    let d := ((ofReading (.object [("a", .array elements)])).perform
      (.removeElement 1 0)).perform (.removeField 0 "a")
    d.WellFormed ∧ d.top 4 = 1 ∧ d.path 4 = ["0", "x"] ∧
      d.follow? (d.top 4) (d.path 4) = some 4 := by
  intro elements d
  have hd : d.WellFormed :=
    (((rooted_ofReading _).perform (by decide)).perform (by decide)).wellFormed
  exact ⟨hd, by decide, by decide, (follow_path hd).1 4⟩

end Reshape.Document
