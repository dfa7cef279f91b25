import Reshape.Proofs.Path.Compile
import Reshape.Proofs.Template.Pattern

/-!
# Addresses

The address of a node is its path, save that the root, which has no key, is given one empty key. So
addresses tell the nodes of a tree apart, except for the root and a member of the root whose name is
empty, and patterns describe the root by what they say of an empty key. An empty segment describes
it, and a star does. Of an inert step a pattern keeps an empty segment too, so that it describes
rows of keys although its path selects nothing.

## Main definitions

* `Document.IsBlankMember`: a member of the root whose name is empty.

## Main statements

* `WellFormed.address_eq_address_iff`: when two nodes have the same address.
* `Pattern.root_mem_select_iff`: when the path of a pattern that describes the root selects it.
* `Pattern.holds_of_inert_mem`: what patterns with inert steps describe.
-/

namespace Reshape

open Document

/-! ## Nodes of one address -/

/-- A member of the root whose name is empty. -/
def Document.IsBlankMember (d : Document) (n : NodeId) : Prop :=
  d.parent n = some d.root ∧ d.name n = some ""

namespace Document.WellFormed

variable {d : Document} (h : d.WellFormed)
include h

/-- The address of the root is one empty key. -/
theorem address_root : d.address d.root = [""] := by
  rw [address, ForestWith.path_of_parent_eq_none h.rooted.forest h.parent_root]

/-- No other node has this address but a member whose name is empty: positions are not empty. -/
theorem address_eq_blank_iff {n : NodeId} (htop : d.top n = d.root) (hn : n ≠ d.root) :
    d.address n = [""] ↔ d.IsBlankMember n := by
  have hforest := h.rooted.forest
  rw [h.address_eq_path htop hn, IsBlankMember]
  rcases hp : d.parent n with _ | p
  · simp [ForestWith.path_of_parent_eq_none hforest hp]
  · obtain ⟨k, hk, hpath⟩ := ForestWith.path_of_parent hforest hp
    have hkey : d.key n = some "" ↔ d.name n = some "" := by
      rw [ForestWith.key_eq_some_iff hforest, or_iff_left]
      rintro ⟨i, -, hi⟩
      exact Decimal.digits_ne_nil i (String.ofList_injective hi.symm)
    have hup : d.path p = [] ↔ p = d.root := by
      have htop : d.top p = d.root := by rwa [h.top_eq, hp] at htop
      rw [ForestWith.path_eq_nil_iff hforest]
      refine ⟨fun hnone => ?_, fun hroot => hroot ▸ h.parent_root⟩
      rwa [h.top_eq, hnone] at htop
    rw [hpath, ← hkey, hk, Option.some_inj, Option.some_inj, ← hup]
    simp [List.append_eq_singleton_iff]

/-- Two nodes of the root's tree have the same address only if they are the same node, or one of
them is the root and the other a member of it whose name is empty. -/
theorem address_eq_address_iff {n m : NodeId} (hn : d.top n = d.root) (hm : d.top m = d.root) :
    d.address n = d.address m ↔
      n = m ∨ n = d.root ∧ d.IsBlankMember m ∨ d.IsBlankMember n ∧ m = d.root := by
  have hblank : ¬d.IsBlankMember d.root := by simp [IsBlankMember, h.parent_root]
  by_cases hnroot : n = d.root <;> by_cases hmroot : m = d.root
  · simp [hnroot, hmroot]
  · rw [hnroot, h.address_root, eq_comm, h.address_eq_blank_iff hm hmroot]
    grind
  · rw [hmroot, h.address_root, h.address_eq_blank_iff hn hnroot]
    grind
  · rw [h.address_eq_path hn hnroot, h.address_eq_path hm hmroot]
    have hpath := ForestWith.eq_of_path_eq h.rooted.forest (hn.trans hm.symm)
    grind

end Document.WellFormed

/-- A member whose name is empty, beside an element of such a member and a member of one. -/
theorem Document.address_eq_address_iff_blankMember :
    let d := ofReading (.object [("", .array [.leaf .null]), ("a", .object [("", .leaf .null)])])
    d.WellFormed ∧ d.top 1 = d.root ∧ d.top d.root = d.root ∧
      (d.address 1 = d.address d.root ↔
        1 = d.root ∨ 1 = d.root ∧ d.IsBlankMember d.root ∨ d.IsBlankMember 1 ∧ d.root = d.root) ∧
      d.address 2 = ["", "0"] ∧ d.address 4 = ["a", ""] := by
  intro d
  have hd : d.WellFormed := (rooted_ofReading _).wellFormed
  have hmember : d.top 1 = d.root := by decide
  have hroot : d.top d.root = d.root := by decide
  exact ⟨hd, hmember, hroot, hd.address_eq_address_iff hmember hroot, by decide, by decide⟩

/-- The member of the empty name has the address of the root, so that a pattern for the root
describes it too. -/
theorem Document.address_blankMember :
    let d := ofReading (.object [("", .leaf (.integer 1))])
    d.WellFormed ∧ d.top 1 = d.root ∧ d.top d.root = d.root ∧ d.address 1 = d.address d.root ∧
      1 ≠ d.root ∧ (Pattern.compile true "/").map (·.holds (d.address 1)) = .ok true := by
  intro d
  exact ⟨(rooted_ofReading _).wellFormed, by decide, by decide, by decide, by decide,
    by decide +kernel⟩

/-! ## Patterns of the root -/

namespace Path

/-- The step of a text that is within the grammar shows the text of its segment. -/
theorem segment_eq_of_mem_compileStrict {text : String} {p : Path} (hp : compileStrict text = .ok p)
    {s : Step} (hs : s ∈ p.steps) : s.segment = .ofText s.segment.text := by
  obtain ⟨hall, rfl⟩ := (compileStrict_eq_ok_iff text p).mp hp
  obtain ⟨cs, hcs, rfl⟩ := List.mem_map.mp hs
  exact (compiles_readStep cs).segment_cases.resolve_right fun hinert => hinert.2 (hall cs hcs)

end Path

namespace Pattern

/-- A row of one key is described by one segment, or by none. -/
theorem holds_singleton_iff {p : Pattern} {key : String} :
    p.holds [key] = true ↔
      p.segments = [] ∨ ∃ segment, p.segments = [segment] ∧ describes segment key = true := by
  have hrow : ∀ segments, describesPrefix segments [key] = true ↔
      segments = [] ∨ ∃ segment, segments = [segment] ∧ describes segment key = true := by
    rintro (_ | ⟨s, _ | ⟨s', rest⟩⟩) <;> simp [describesPrefix]
  unfold holds
  split <;> simp [hrow, List.reverse_eq_iff]

/-- What describes an empty key is a star or empty. -/
theorem describes_blank_iff {segment : String} :
    describes segment "" = true ↔ segment = "*" ∨ segment = "" := by
  simp [describes]

/-- A pattern of well formed steps describes an empty key if it has no step, or a single one that
takes all children or descends. -/
theorem holds_blank_iff {text : String} {p : Path} (hp : Path.compileStrict text = .ok p) :
    holds ⟨text, p.absolute, p.segments⟩ [""] = true ↔
      p.steps = [] ∨ ∃ s, p.steps = [s] ∧ (s.segment = .wildcard ∨ s.segment = .descend) := by
  have hdescribes : ∀ s ∈ p.steps, (describes s.segment.text "" = true ↔
      s.segment = .wildcard ∨ s.segment = .descend) := by
    intro s hs
    have hsegment := Path.segment_eq_of_mem_compileStrict hp hs
    rw [describes_blank_iff]
    constructor
    · rintro (h | h) <;> rw [hsegment, h] <;> simp [Segment.ofText]
    · rintro (h | h) <;> simp [h, Segment.text]
  rw [holds_singleton_iff]
  simp only [Path.segments, List.map_eq_nil_iff, List.map_eq_singleton_iff]
  grind

end Pattern

namespace Document.WellFormed

variable {d : Document} (h : d.WellFormed)
include h

/-- Of the steps that describe an empty key, a star leads away from the root and a descent stays
there. -/
theorem root_mem_walk_iff {test : Predicate → NodeId → Bool} {s : Step}
    (hs : s.segment = .wildcard ∨ s.segment = .descend) :
    d.root ∈ d.walk test [s] d.root ↔
      s.segment ≠ .wildcard ∧ passes test s.predicate d.root = true := by
  rcases hs with hs | hs
  · have hchild : d.root ∉ d.children d.root := by simp [h.mem_children_iff, h.parent_root]
    simp [walk, candidates, hs, hchild]
  · simp [walk, candidates, hs]

/-- From the root every path begins there. -/
theorem origin_root (p : Path) : d.origin p d.root = d.root := by
  rw [origin, h.top_eq, h.parent_root, ite_self]

end Document.WellFormed

namespace Pattern

/-- A pattern of well formed steps describes the root if it has no step, or a single one that is a
star or empty. Its path then selects the root, unless the step is a star, which takes the children
instead, or has a predicate that the root does not satisfy. -/
theorem root_mem_select_iff {d : Document} (h : d.WellFormed) {text : String} {pattern : Pattern}
    (hpattern : compile true text = .ok pattern) :
    ∃ p, Path.compileStrict text = .ok p ∧
      (pattern.holds (d.address d.root) = true ↔
        p.steps = [] ∨ ∃ s, p.steps = [s] ∧ (s.segment = .wildcard ∨ s.segment = .descend)) ∧
      (pattern.holds (d.address d.root) = true → ∀ bindings,
        (d.root ∈ d.select bindings p d.root ↔ ∀ s ∈ p.steps,
          s.segment ≠ .wildcard ∧ passes (d.satisfies bindings) s.predicate d.root = true)) := by
  obtain ⟨p, hp, rfl⟩ := exists_of_map_eq_ok hpattern
  have hholds := holds_blank_iff (show Path.compileStrict text = .ok p from hp)
  rw [h.address_root]
  refine ⟨p, hp, hholds, fun hroot bindings => ?_⟩
  rw [select, h.origin_root]
  rcases hholds.mp hroot with hsteps | ⟨s, hsteps, hs⟩
  · simp [hsteps]
  · rw [hsteps, h.root_mem_walk_iff hs, List.forall_mem_singleton]

/-- A star in a strict pattern. -/
theorem root_mem_select_iff_star :
    let d := ofReading (.array [.leaf .null])
    let pattern : Pattern := ⟨"/*", true, ["*"]⟩
    let p : Path := ⟨true, [⟨.self, .wildcard, none⟩]⟩
    d.WellFormed ∧ compile true "/*" = .ok pattern ∧ Path.compileStrict "/*" = .ok p ∧
      pattern.holds (d.address d.root) = true ∧ d.select none p d.root = [1] ∧
      ∃ p, Path.compileStrict "/*" = .ok p ∧
        (pattern.holds (d.address d.root) = true ↔
          p.steps = [] ∨ ∃ s, p.steps = [s] ∧ (s.segment = .wildcard ∨ s.segment = .descend)) ∧
        (pattern.holds (d.address d.root) = true → ∀ bindings,
          (d.root ∈ d.select bindings p d.root ↔ ∀ s ∈ p.steps,
            s.segment ≠ .wildcard ∧ passes (d.satisfies bindings) s.predicate d.root = true)) := by
  intro d pattern p
  have hd : d.WellFormed := (rooted_ofReading _).wellFormed
  have hpattern : compile true "/*" = .ok pattern := by decide +kernel
  exact ⟨hd, hpattern, by decide +kernel, by decide, by decide, root_mem_select_iff hd hpattern⟩

/-- Patterns that describe a root which their paths do not select: for its children, and for nodes
with a property that it does not have. -/
theorem not_root_mem_select_of_holds :
    let d := ofReading (.array [.leaf .null])
    d.WellFormed ∧ ∀ text ∈ ["/*", "/[1 eq 2]"],
      (compile true text).map (·.holds (d.address d.root)) = .ok true ∧
      (Path.compileStrict text).map (decide <| d.root ∈ d.select none · d.root) = .ok false := by
  intro d
  exact ⟨(rooted_ofReading _).wellFormed, by decide +kernel⟩

/-! ## Patterns with inert steps -/

/-- Whatever a pattern describes has, for each of its segments, a key that the segment
describes. -/
theorem exists_describes_of_holds {p : Pattern} {address : List String}
    (h : p.holds address = true) {segment : String} (hs : segment ∈ p.segments) :
    ∃ key ∈ address, describes segment key = true := by
  have hrow : ∀ {segments keys : List String}, describesPrefix segments keys = true →
      segment ∈ segments → ∃ key ∈ keys, describes segment key = true := by
    intro segments keys h hs
    fun_induction describesPrefix segments keys <;> grind
  unfold holds at h
  split at h
  · exact hrow h hs
  · simpa using hrow h (by simpa using hs)

/-- A pattern describes the row of its own segments. -/
theorem holds_segments (p : Pattern) : p.holds p.segments = true := by
  have hself : ∀ segments, describesPrefix segments segments = true := by
    intro segments
    induction segments with
    | nil => rfl
    | cons s segments ih => simp [describesPrefix, describes, ih]
  simp [holds, hself]

/-- A pattern with a step outside the grammar is accepted when it is not strict, and describes what
it would with an empty segment in the place of that step: the row of its own segments, and nothing
without an empty key. The address of the root is such a key, which it describes if it has no other
step. -/
theorem holds_of_inert_mem {text : String} (h : Step.inert ∈ (Path.compile text).steps) :
    ∃ pattern, compile false text = .ok pattern ∧ pattern.holds pattern.segments = true ∧
      (∀ address, pattern.holds address = true → "" ∈ address) ∧
      (pattern.holds [""] = true ↔ (Path.compile text).steps = [.inert]) := by
  refine ⟨_, rfl, holds_segments _, fun address haddress => ?_, ?_⟩
  · have hmem : "" ∈ (Path.compile text).segments := List.mem_map.mpr ⟨_, h, rfl⟩
    obtain ⟨key, hkey, hdescribes⟩ := exists_describes_of_holds haddress hmem
    obtain rfl : "" = key := by simpa [describes] using hdescribes
    exact hkey
  · rw [holds_singleton_iff]
    simp only [Path.segments, List.map_eq_nil_iff, List.map_eq_singleton_iff]
    constructor
    · rintro (hnone | ⟨_, ⟨s, hone, -⟩, -⟩)
      · simp [hnone] at h
      · rw [hone, List.mem_singleton] at h
        rw [hone, h]
    · intro hone
      exact .inr ⟨"", ⟨_, hone, rfl⟩, by decide⟩

/-- One colon makes a step that selects nothing and a pattern of the root. -/
theorem holds_of_inert_mem_colon :
    Step.inert ∈ (Path.compile "a:b").steps ∧ ∃ pattern, compile false "a:b" = .ok pattern ∧
      pattern.holds pattern.segments = true ∧
      (∀ address, pattern.holds address = true → "" ∈ address) ∧
      (pattern.holds [""] = true ↔ (Path.compile "a:b").steps = [.inert]) := by
  have hinert : Step.inert ∈ (Path.compile "a:b").steps := by decide +kernel
  exact ⟨hinert, holds_of_inert_mem hinert⟩

/-- A pattern that is outside the grammar describes the root. -/
theorem holds_root_of_inert_mem :
    Step.inert ∈ (Path.compile "a:b").steps ∧
      (compile false "a:b").map (·.holds [""]) = .ok true := by
  decide +kernel

end Pattern

end Reshape
