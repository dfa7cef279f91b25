import Mathlib.Data.List.Forall2
import Mathlib.Data.List.Induction
import Reshape.Proofs.Document.Place
import Reshape.Proofs.Path.Append
import Reshape.Proofs.Path.Key
import Reshape.Proofs.Template.Rules

/-!
# Patterns and paths

A pattern looks at the keys of an address and a path walks down the document. Where all steps take
children, by a star or by a name, they agree: the path leads to exactly the nodes whose paths its
segments describe key by key, so that an absolute pattern holds of an address if its path selects
the node or something around it.

## Main definitions

* `Step.TakesChildren`: a step that takes all children or those of a name.

## Main statements

* `Pattern.describesPrefix_iff`: what it is to describe the beginning of a row of keys.
* `ForestWith.mem_walk_step`: one step.
* `ForestWith.mem_walk_iff`: a row of steps from a node that has no container.
* `WellFormed.mem_select_iff`: the nodes that such a path selects.
* `Pattern.holds_address_iff`.
-/

namespace Reshape

open Document

/-- A step that takes children and nothing else: all of them, or those of a name that is not read as
a position. -/
structure Step.TakesChildren (s : Step) : Prop where
  axis_eq : s.axis = .self
  predicate_eq : s.predicate = none
  segment_eq : s.segment = .wildcard ∨
    ∃ name, s.segment = .name name ∧ isInteger name.toList = false

/-- The segment of a step describes a key. -/
abbrev Step.Describes (s : Step) (key : String) : Prop :=
  Pattern.describes s.segment.text key = true

/-! ## Rows of segments -/

namespace Pattern

/-- A row of segments describes the beginning of a row of keys if it describes one by one the keys
of some beginning. -/
theorem describesPrefix_iff {segments keys : List String} :
    describesPrefix segments keys = true ↔
      ∃ front, front <+: keys ∧ List.Forall₂ (describes · ·) segments front := by
  fun_induction describesPrefix segments keys with
  | case1 keys => simp
  | case2 s segments => simp
  | case3 s segments k keys ih =>
    simp only [Bool.and_eq_true, ih, List.forall₂_cons_left_iff]
    constructor
    · rintro ⟨hk, front, hfront, hall⟩
      exact ⟨k :: front, List.cons_prefix_cons.mpr ⟨rfl, hfront⟩, k, front, hk, hall, rfl⟩
    · rintro ⟨_, hcons, _, front, hk, hall, rfl⟩
      obtain ⟨rfl, hfront⟩ := List.cons_prefix_cons.mp hcons
      exact ⟨hk, front, hfront, hall⟩

end Pattern

/-- Two rows that end with one more entry each. -/
theorem forall₂_concat_iff {α β : Type} {R : α → β → Prop} {as : List α} {a : α} {bs : List β}
    {b : β} : List.Forall₂ R (as ++ [a]) (bs ++ [b]) ↔ List.Forall₂ R as bs ∧ R a b := by
  rw [← List.forall₂_reverse_iff]
  simp [and_comm]

namespace Path

/-- No text is read as the name that a star would be: the star stands for all children. -/
theorem segment_readStep_ne_star (cs : List Char) : (readStep cs).step.segment ≠ .name "*" := by
  have hofText : ∀ text, Segment.ofText text ≠ .name "*" := by
    intro text
    unfold Segment.ofText
    split <;> simp_all
  have hhead : ∀ head axis segment, readHead? head = some (axis, segment) →
      segment ≠ .name "*" := by
    intro head axis segment h
    simp only [readHead?, Option.ite_none_right_eq_some, Option.some.injEq, Prod.mk.injEq] at h
    exact h.2.2 ▸ hofText _
  unfold readStep
  grind [Step.inert]

end Path

namespace Document

variable {d : Document} {test : Predicate → NodeId → Bool}

/-! ## Steps -/

namespace ForestWith

variable (h : d.Forest)
include h

/-- A step that takes children takes those whose key its segment describes. The key of an element is
no name, since it is read as a position. -/
theorem mem_walk_step {s : Step} (hs : s.TakesChildren) (hstar : s.segment ≠ .name "*")
    {p c : NodeId} :
    c ∈ d.walk test [s] p ↔ d.parent c = some p ∧ ∃ k, d.key c = some k ∧ s.Describes k := by
  rcases hs.segment_eq with hall | ⟨name, hname, hinteger⟩
  · have hwalk : d.walk test [s] p = d.children p := by
      simp [walk, candidates, hall, hs.predicate_eq, passes]
    have hany : ∀ k, s.Describes k := by
      simp [Step.Describes, Pattern.describes, hall, Segment.text]
    rw [hwalk, h.mem_children_iff, iff_self_and]
    intro hp
    obtain ⟨k, hk, -⟩ := path_of_parent h hp
    exact ⟨k, hk, hany k⟩
  · have hwalk : d.walk test [s] p = (d.childByName? p name).toList := by
      cases hc : d.childByName? p name <;>
        simp [walk, candidates, hname, hs.predicate_eq, hs.axis_eq, axis, passes, namedChild?,
          hinteger, hc]
    have hkey : d.key c = some name ↔ d.name c = some name := by
      rw [key_eq_some_iff h, or_iff_left]
      rintro ⟨i, -, rfl⟩
      simp [indexText, isInteger_digits] at hinteger
    have hne : name ≠ "*" := by grind
    rw [hwalk, Option.mem_toList, childByName?_eq_some_iff h, ← hkey]
    simp [Step.Describes, Pattern.describes, hname, Segment.text, hne]

/-- Steps that take children lead from a node that has no container to the nodes whose keys they
describe, one by one. -/
theorem mem_walk_iff {steps : List Step} (hsteps : ∀ s ∈ steps, s.TakesChildren)
    (hstar : ∀ s ∈ steps, s.segment ≠ .name "*") {t c : NodeId} (ht : d.parent t = none) :
    c ∈ d.walk test steps t ↔ d.top c = t ∧ List.Forall₂ Step.Describes steps (d.path c) := by
  induction steps using List.reverseRecOn generalizing c with
  | nil =>
    simp only [walk_nil, List.mem_singleton, List.forall₂_nil_left_iff, path_eq_nil_iff h]
    constructor
    · rintro rfl
      exact ⟨by rw [top_eq h, ht], ht⟩
    · rintro ⟨htop, hp⟩
      rw [← htop, top_eq h, hp]
  | append_singleton steps s ih =>
    have hchildren := hsteps s (by simp)
    have hclean : Path.CleanCut steps [s] := by
      refine Path.cleanCut_of_forall_ne_descend (fun s hs => ?_) _
      rcases (hsteps s (by simp [hs])).segment_eq with hs | ⟨_, hs, -⟩ <;> simp [hs]
    have ih {p : NodeId} := ih (fun s hs => hsteps s (by simp [hs]))
      (fun s hs => hstar s (by simp [hs])) (c := p)
    simp only [walk_append hclean, List.mem_flatMap, ih,
      mem_walk_step h hchildren (hstar s (by simp))]
    rcases hp : d.parent c with _ | p
    · simp [path_of_parent_eq_none h hp]
    · obtain ⟨k, hk, hpath⟩ := path_of_parent h hp
      have htop : d.top c = d.top p := by rw [top_eq h, hp]
      simp [htop, hpath, hk, forall₂_concat_iff, and_assoc]

end ForestWith

end Document

/-! ## Patterns -/

namespace Document.WellFormed

variable {d : Document} (h : d.WellFormed)
include h

/-- The address of a node below the root is its path. -/
theorem address_eq_path {n : NodeId} (htop : d.top n = d.root) (hn : n ≠ d.root) :
    d.address n = d.path n := by
  have hne : d.path n ≠ [] := by
    rw [Ne, ForestWith.path_eq_nil_iff h.rooted.forest]
    intro hparent
    rw [h.top_eq, hparent] at htop
    exact hn htop
  unfold address
  split
  · contradiction
  · rfl

/-- An absolute path whose steps take children selects from the root the nodes of its tree whose
keys the steps describe. -/
theorem mem_select_iff {text : String} (habsolute : (Path.compile text).absolute = true)
    (hsteps : ∀ s ∈ (Path.compile text).steps, s.TakesChildren)
    {bindings : Option (Tree Scalar)} {a : NodeId} :
    a ∈ d.select bindings (Path.compile text) d.root ↔
      d.top a = d.root ∧ List.Forall₂ Step.Describes (Path.compile text).steps (d.path a) := by
  have hstar : ∀ s ∈ (Path.compile text).steps, s.segment ≠ .name "*" := by
    simp [Path.compile, Path.compileChars, Path.segment_readStep_ne_star]
  have hroot : d.top d.root = d.root := by rw [h.top_eq, h.parent_root]
  rw [select, origin, if_pos habsolute, hroot,
    ForestWith.mem_walk_iff h.rooted.forest hsteps hstar h.parent_root]

end Document.WellFormed

/-- The pattern of an absolute path holds of an address if its steps describe the keys of some
beginning of it. -/
theorem Pattern.holds_iff_of_absolute {text : String} {p : Path} (habsolute : p.absolute = true)
    {address : List String} :
    Pattern.holds ⟨text, p.absolute, p.segments⟩ address = true ↔
      ∃ keys, keys <+: address ∧ List.Forall₂ Step.Describes p.steps keys := by
  rw [holds, if_pos habsolute, describesPrefix_iff]
  simp only [Path.segments, List.forall₂_map_left_iff]

/-- Below the root, patterns agree with paths: an absolute pattern whose steps take children holds
of the address of a node if and only if its path selects from the root the node or something around
it, whatever the variables are. -/
theorem Pattern.holds_address_iff {d : Document} (h : d.WellFormed) {n : NodeId}
    (htop : d.top n = d.root) (hn : n ≠ d.root) {strict : Bool} {text : String} {p : Path}
    (hp : Path.compileWith strict text = .ok p) (habsolute : p.absolute = true)
    (hsteps : ∀ s ∈ p.steps, s.TakesChildren) :
    ∃ pattern, compile strict text = .ok pattern ∧ ∀ bindings,
      (pattern.holds (d.address n) = true ↔
        ∃ a ∈ n :: d.ancestors n, a ∈ d.select bindings p d.root) := by
  have hforest := h.rooted.forest
  have hup : ∀ a ∈ n :: d.ancestors n, d.top a = d.root := by
    simpa [htop] using fun a ha => (ForestWith.top_of_mem_ancestors hforest ha).trans htop
  refine ⟨⟨text, p.absolute, p.segments⟩, by rw [compile, hp]; rfl, fun bindings => ?_⟩
  rw [holds_iff_of_absolute habsolute, h.address_eq_path htop hn]
  obtain rfl := Path.eq_compile_of_compileWith hp
  simp only [h.mem_select_iff habsolute hsteps, ← ForestWith.exists_path_eq_iff hforest]
  constructor
  · rintro ⟨_, ⟨a, ha, rfl⟩, hall⟩
    exact ⟨a, ha, hup a ha, hall⟩
  · rintro ⟨a, ha, -, hall⟩
    exact ⟨d.path a, ⟨a, ha, rfl⟩, hall⟩

namespace Pattern

/-- A star for the elements of a member holds of what is in an element. -/
theorem holds_address_iff_elementMember :
    let d := ofReading (.object [("a", .array [.leaf .null, .object [("x", .leaf .null)]])])
    let p : Path := ⟨true, [⟨.self, .name "a", none⟩, ⟨.self, .wildcard, none⟩]⟩
    d.WellFormed ∧ d.top 4 = d.root ∧ 4 ≠ d.root ∧ Path.compileWith true "/a/*" = .ok p ∧
      p.absolute = true ∧ (∀ s ∈ p.steps, s.TakesChildren) ∧
      d.address 4 = ["a", "1", "x"] ∧ d.select none p d.root = [2, 3] ∧ 3 ∈ d.ancestors 4 ∧
      ∃ pattern, compile true "/a/*" = .ok pattern ∧ ∀ bindings,
        (pattern.holds (d.address 4) = true ↔
          ∃ a ∈ 4 :: d.ancestors 4, a ∈ d.select bindings p d.root) := by
  intro d p
  have hd : d.WellFormed := (rooted_ofReading _).wellFormed
  have htop : d.top 4 = d.root := by decide
  have hp : Path.compileWith true "/a/*" = .ok p := by decide +kernel
  have hsteps : ∀ s ∈ p.steps, s.TakesChildren := by
    simp only [p, List.forall_mem_cons]
    exact ⟨⟨rfl, rfl, .inr ⟨"a", rfl, by decide⟩⟩, ⟨rfl, rfl, .inl rfl⟩, by simp⟩
  exact ⟨hd, htop, by decide, hp, rfl, hsteps, by decide, by decide, by decide,
    holds_address_iff hd htop (by decide) hp rfl hsteps⟩

end Pattern

/-- Of the root itself a star holds, since its address is one empty segment, but no path of a star
selects it. -/
example :
    let d := ofReading (.array [])
    let p := Path.compile "/*"
    (Pattern.compile false "/*").map (·.holds (d.address d.root)) = .ok true ∧
      d.select none p d.root = [] := by
  decide +kernel

end Reshape
