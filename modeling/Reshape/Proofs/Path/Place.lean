import Reshape.Proofs.Document.Place
import Reshape.Proofs.Path.Append
import Reshape.Proofs.Path.Key

/-!
# The path of a node selects the node

Every key of a node's path is a step that takes one child, so that the whole row of steps leads from
the topmost ancestor to the node and to no other one. Names that are not read as names are excepted:
an integer is read as a position, in objects too.

## Main definitions

* `Path.Selectable`: a name that a step selects members by.

## Main statements

* `Document.walk_keyStep`: one step from a container.
* `ForestWith.walk_path`: the steps of a path.
* `Document.select_path`.
-/

namespace Reshape

/-- A name that a step selects members by: it stands for itself and is not read as a position. -/
structure Path.Selectable (name : String) : Prop extends Path.Writable name where
  not_integer : isInteger name.toList = false

namespace Document

open Reshape.Path (keyStep Selectable Writable)

variable {d : Document} {test : Predicate → NodeId → Bool}

theorem walk_keyStep (p : NodeId) (k : String) :
    d.walk test [keyStep k] p = (d.namedChild? p k).toList := by
  cases hc : d.namedChild? p k <;> simp [walk, candidates, keyStep, axis, passes, hc]

namespace ForestWith

variable (h : d.Forest)
include h

/-- The key of a child takes the child, if it is a position or not read as one. -/
theorem namedChild?_of_key {p c : NodeId} {k : String} (hp : d.parent c = some p)
    (hk : d.key c = some k) (hname : d.name c = some k → isInteger k.toList = false) :
    d.namedChild? p k = some c := by
  rcases (key_eq_some_iff h).mp hk with hn | ⟨i, hi, rfl⟩
  · simp [namedChild?, hname hn, (childByName?_eq_some_iff h).mpr ⟨hp, hn⟩]
  · simp [namedChild?, indexText, isInteger_digits, readIndex?_digits, childAt?_of_index? hp hi]

/-- The steps of a path lead from the topmost ancestor to the node. -/
theorem walk_path {n : NodeId}
    (hn : ∀ c ∈ n :: d.ancestors n, ∀ k, d.name c = some k → isInteger k.toList = false) :
    d.walk test ((d.path n).map keyStep) (d.top n) = [n] := by
  induction n using h.wellFounded.induction with
  | h n ih =>
    rcases hp : d.parent n with _ | p
    · simp [path_of_parent_eq_none h hp, top_eq h n, hp]
    · obtain ⟨k, hk, hpath⟩ := path_of_parent h hp
      have hup : ∀ c ∈ p :: d.ancestors p, c ∈ n :: d.ancestors n := by
        grind [h.ancestors_of_parent_eq_some hp]
      have htop : d.top n = d.top p := by rw [top_eq h, hp]
      have hclean : Path.CleanCut ((d.path p).map keyStep) [keyStep k] :=
        Path.cleanCut_of_forall_ne_descend (by simp [keyStep]) _
      rw [hpath, List.map_append, List.map_singleton, htop, walk_append hclean,
        ih p hp fun c hc => hn c (hup c hc)]
      simp [walk_keyStep, namedChild?_of_key h hp hk (hn n (by simp) k)]

/-- The keys of a path stand for themselves if the names among them do. -/
theorem writable_of_mem_path {n : NodeId}
    (hn : ∀ c ∈ n :: d.ancestors n, ∀ k, d.name c = some k → Writable k) :
    ∀ k ∈ d.path n, Writable k := by
  intro k hk
  simp only [path, List.mem_reverse, List.mem_filterMap] at hk
  obtain ⟨c, hc, hkey⟩ := hk
  rcases (key_eq_some_iff h).mp hkey with hname | ⟨i, -, rfl⟩
  · exact hn c hc k hname
  · exact Path.writable_indexText i

end ForestWith

/-- The path of a slash alone. -/
theorem compileStrict_slash : Path.compileStrict "/" = .ok ⟨true, [⟨.self, .descend, none⟩]⟩ := by
  decide +kernel

/-- The text of a node's path selects the node, from every node of the same tree and whatever the
variables are: a slash and the keys with slashes between them, or the slash alone for a node that
has no container. The names on the path have to be names that select members. -/
theorem select_path {d : Document} (h : d.WellFormed) {n m : NodeId} (hm : d.top m = d.top n)
    (hn : ∀ c ∈ n :: d.ancestors n, ∀ k, d.name c = some k → Selectable k) :
    ∃ p, Path.compileStrict (displayAddress (d.path n)) = .ok p ∧
      ∀ bindings, d.select bindings p m = [n] := by
  have hforest := h.rooted.forest
  rcases hpath : d.path n with _ | ⟨k, keys⟩
  · have htop : d.top n = n := by
      rw [ForestWith.top_eq hforest, (ForestWith.path_eq_nil_iff hforest).mp hpath]
    refine ⟨_, compileStrict_slash, fun bindings => ?_⟩
    simp [select, origin, walk, candidates, passes, hm, htop]
  · rw [← hpath]
    have hwritable := ForestWith.writable_of_mem_path hforest fun c hc k hk =>
      (hn c hc k hk).toWritable
    refine ⟨_, Path.compileStrict_displayAddress (by simp [hpath]) hwritable, fun bindings => ?_⟩
    rw [select, origin, if_pos rfl, hm,
      ForestWith.walk_path hforest fun c hc k hk => (hn c hc k hk).not_integer]

/-- A member of an element of a member, from a sibling of the element. -/
theorem select_path_elementMember :
    let d := ofReading (.object [("a b", .array [.leaf .null, .object [("x", .leaf .null)]])])
    d.WellFormed ∧ d.top 2 = d.top 4 ∧
      (∀ c ∈ 4 :: d.ancestors 4, ∀ k, d.name c = some k → Selectable k) ∧
      d.path 4 = ["a b", "1", "x"] ∧
      ∃ p, Path.compileStrict "/a b/1/x" = .ok p ∧ ∀ bindings, d.select bindings p 2 = [4] := by
  intro d
  have hd : d.WellFormed := (rooted_ofReading _).wellFormed
  have hx : Selectable "x" :=
    ⟨⟨by simp, by simp [Text.isBlank], by simp [Text.isBlank], by simp, by simp⟩, by decide⟩
  have hab : Selectable "a b" :=
    ⟨⟨by simp, by simp [Text.isBlank], by simp [Text.isBlank], by simp, by simp⟩, by decide⟩
  have hnames : (4 :: d.ancestors 4).map d.name = [some "x", none, some "a b", none] := by decide
  have hn : ∀ c ∈ 4 :: d.ancestors 4, ∀ k, d.name c = some k → Selectable k := by
    intro c hc k hk
    have hmem := List.mem_map_of_mem (f := d.name) hc
    rw [hnames, hk] at hmem
    grind
  have htop : d.top 2 = d.top 4 := by decide
  have hpath : d.path 4 = ["a b", "1", "x"] := by decide
  have haddress : displayAddress (d.path 4) = "/a b/1/x" := by rw [hpath]; rfl
  exact ⟨hd, htop, hn, hpath, haddress ▸ select_path hd htop hn⟩

/-- A name of digits is read as a position, so that its path selects another member. -/
example :
    let d := ofReading (.object [("1", .leaf .null), ("0", .leaf (.boolean true))])
    d.path 1 = ["1"] ∧ d.select none (Path.compile "/1") 0 = [2] := by
  decide +kernel

end Document

end Reshape
