import Reshape.Proofs.Document.Reachable
import Reshape.Proofs.Path.Append

/-!
# Predicates as filters

A predicate keeps some of the nodes that its step takes and changes nothing else: at the end of a
path it filters the selection, and in the middle it filters the nodes from which the other steps go
on. A step that a descent takes over keeps its predicate. The descent itself has none to ask, so
that a predicate written on it has no effect, unless the descent is the last step.

## Main definitions

* `Path.withPredicate`: a path with another predicate in one of its steps.
* `Path.TakesOver`: a step is a descent that takes over the one behind it.

## Main statements

* `Document.ForestWith.lt_size_of_mem_walk`: a path does not leave the document.
* `Document.walk_concat`, `Document.walk_append_cons`: the predicate of a step as a filter.
* `Document.walk_congr_of_endsOpen`: the predicate of a descent.
* `Document.select_withPredicate`: predicates that hold always or never.
* `Document.select_withPredicate_last`: a predicate and its negation.
-/

namespace Reshape

namespace Path

/-- The path with another predicate, or none, in the step at a position. -/
def withPredicate (p : Path) (i : Nat) (q : Option Predicate) : Path :=
  { p with steps := p.steps.modify i fun s => { s with predicate := q } }

/-- The step at a position is a descent, is not taken over itself and takes over the next one. -/
def TakesOver (p : Path) (i : Nat) : Prop :=
  endsOpen (p.steps.take (i + 1)) = true ∧ i + 1 < p.steps.length

instance (p : Path) (i : Nat) : Decidable (p.TakesOver i) := inferInstanceAs (Decidable (_ ∧ _))

/-- A row ends open if its last step is a descent and is not taken over. -/
theorem endsOpen_append_singleton (P : List Step) (s : Step) :
    endsOpen (P ++ [s]) = (decide (s.segment = .descend) && !endsOpen P) := by
  fun_induction endsOpen P with
  | case1 => simp [endsOpen]
  | case2 s₀ => simp [endsOpen, Bool.and_comm]
  | case3 s₀ next rest hs ih => simpa [endsOpen, hs] using ih
  | case4 s₀ next rest hs ih => simpa [endsOpen, hs] using ih

/-- The step at a position is cut out of its path. -/
theorem withPredicate_eq {p : Path} {i : Nat} (hi : i < p.steps.length) (q : Option Predicate) :
    p.withPredicate i q = ⟨p.absolute, p.steps.take i ++
      { p.steps[i] with predicate := q } :: p.steps.drop (i + 1)⟩ := by
  rw [withPredicate, List.modify_eq_take_cons_drop hi]

/-- Only a descent takes over the next step. -/
theorem takesOver_iff {p : Path} {i : Nat} (hi : i < p.steps.length) :
    p.TakesOver i ↔ p.steps[i].segment = .descend ∧ endsOpen (p.steps.take i) = false ∧
      p.steps.drop (i + 1) ≠ [] := by
  rw [TakesOver, ← List.take_append_getElem hi, endsOpen_append_singleton]
  simp [and_assoc]

end Path

namespace Document

variable {d : Document} {test : Predicate → NodeId → Bool}

/-! ## Paths stay in the document -/

theorem mem_children_of_childByName? {p c : NodeId} {name : String}
    (hc : d.childByName? p name = some c) : c ∈ d.children p := by
  unfold childByName? at hc
  split at hc
  · next ms hms => exact ForestWith.mem_children_of_find? hms hc
  · cases hc

/-- What a name or a position denotes is a child. -/
theorem mem_children_of_namedChild? {p c : NodeId} {text : String}
    (hc : d.namedChild? p text = some c) : c ∈ d.children p := by
  unfold namedChild? at hc
  split at hc
  · obtain ⟨i, -, hi⟩ := Option.bind_eq_some_iff.mp hc
    exact List.mem_of_getElem? hi
  · exact mem_children_of_childByName? hc

namespace ForestWith

variable (h : d.Forest)
include h

theorem lt_size_of_mem_visitStack {fuel : Nat} {stack : List NodeId}
    (hstack : ∀ m ∈ stack, m < d.nodes.size) {m : NodeId} (hm : m ∈ d.visitStack fuel stack) :
    m < d.nodes.size := by
  fun_induction visitStack d fuel stack with
  | case1 | case2 => simp at hm
  | case3 fuel id stack ih =>
    have hchildren : ∀ c ∈ d.children id, c < d.nodes.size := fun c => h.lt_size_of_mem_children
    grind

theorem lt_size_of_mem_axis {id : NodeId} (hid : id < d.nodes.size) {a : Axis} {m : NodeId}
    (hm : m ∈ d.axis id a) : m < d.nodes.size := by
  have hchildren : ∀ p, ∀ c ∈ d.children p, c < d.nodes.size :=
    fun p c => h.lt_size_of_mem_children
  have habove : ∀ c ∈ d.ancestors id, c < d.nodes.size :=
    fun c => h.lt_size_of_mem_ancestorsWithin
  have hbelow : ∀ c ∈ d.descendants id, c < d.nodes.size :=
    fun c => lt_size_of_mem_visitStack h (hchildren id)
  have hsiblings : ∀ c ∈ d.siblings id, c < d.nodes.size := by
    unfold siblings
    split
    · exact hchildren _
    · simp
  cases a with
  | self => grind [axis]
  | child => exact hchildren id m hm
  | parent => exact h.parent_lt_size (Option.mem_toList.mp hm)
  | ancestor => exact habove m hm
  | ancestorOrSelf => grind [axis]
  | descendant => exact hbelow m hm
  | descendantOrSelf => grind [axis]
  | precedingSibling => exact hsiblings m (List.takeWhile_subset _ hm)
  | followingSibling =>
    exact hsiblings m (List.dropWhile_subset _ (List.mem_of_mem_drop hm))
  | unknown => cases hm

theorem lt_size_of_mem_candidates {s : Step} {id : NodeId} (hid : id < d.nodes.size) {m : NodeId}
    (hm : m ∈ d.candidates s id) : m < d.nodes.size := by
  unfold candidates at hm
  split at hm
  · exact lt_size_of_mem_axis h hid hm
  · exact h.parent_lt_size (Option.mem_toList.mp hm)
  · exact h.lt_size_of_mem_children hm
  · grind
  · obtain ⟨p, -, hc⟩ := List.mem_filterMap.mp hm
    exact h.lt_size_of_mem_children (mem_children_of_namedChild? hc)
  · cases hm

/-- A path does not leave the document. -/
theorem lt_size_of_mem_walk {steps : List Step} {id : NodeId} (hid : id < d.nodes.size)
    {m : NodeId} (hm : m ∈ d.walk test steps id) : m < d.nodes.size := by
  fun_induction Path.endsOpen steps generalizing id with
  | case1 => grind [walk_nil]
  | case2 s => exact lt_size_of_mem_candidates h hid (List.mem_filter.mp hm).1
  | case3 s next rest hs ih =>
    rw [walk_descend hs] at hm
    split at hm
    · cases hm
    · obtain ⟨c, hc, hm⟩ := List.mem_flatMap.mp hm
      obtain ⟨n, -, hname⟩ := List.mem_filterMap.mp (List.mem_filter.mp hc).1
      exact ih (h.lt_size_of_mem_children (mem_children_of_childByName? hname)) hm
  | case4 s next rest hs ih =>
    rw [walk_cons hs] at hm
    obtain ⟨c, hc, hm⟩ := List.mem_flatMap.mp hm
    exact ih (lt_size_of_mem_candidates h hid (List.mem_filter.mp hc).1) hm

theorem origin_lt_size {id : NodeId} (hid : id < d.nodes.size) (p : Path) :
    d.origin p id < d.nodes.size := by
  unfold origin top
  split
  · rcases hlast : (d.ancestors id).getLast? with _ | a
    · simpa [List.getLastD_eq_getLast?, hlast] using hid
    · simpa [List.getLastD_eq_getLast?, hlast] using
        h.lt_size_of_mem_ancestorsWithin (List.mem_of_getLast? hlast)
  · exact hid

end ForestWith

/-! ## Filters -/

/-- The predicate of the last step filters what the steps select without it. -/
theorem walk_concat (P : List Step) (s : Step) (id : NodeId) :
    d.walk test (P ++ [s]) id =
      (d.walk test (P ++ [{ s with predicate := none }]) id).filter (passes test s.predicate) := by
  have hfilter : ∀ ids : List NodeId, ids.filter (passes test none) = ids :=
    fun ids => List.filter_eq_self.mpr fun _ _ => rfl
  fun_induction Path.endsOpen P generalizing id with
  | case1 => simp [walk, hfilter, candidates]
  | case2 s₀ =>
    by_cases hs : s₀.segment = .descend
    · simp only [List.singleton_append, walk_descend hs, hfilter, flatMap_walk_nil]
      split <;> rfl
    · simp only [List.singleton_append, walk_cons hs, List.filter_flatMap]
      simp [walk, hfilter, candidates]
  | case3 s₀ next rest hs ih =>
    simp only [List.cons_append, walk_descend hs]
    split
    · rfl
    · rw [List.filter_flatMap]
      exact List.flatMap_congr fun m _ => ih m
  | case4 s₀ next rest hs ih =>
    simp only [List.cons_append, walk_cons hs, List.filter_flatMap]
    exact List.flatMap_congr fun m _ => ih m

/-- The predicate of a step filters the nodes from which the steps behind it go on, if the path may
be cut there. -/
theorem walk_append_cons {P : List Step} {s : Step} {R : List Step}
    (h : Path.CleanCut (P ++ [s]) R) (id : NodeId) :
    d.walk test (P ++ s :: R) id =
      ((d.walk test (P ++ [{ s with predicate := none }]) id).filter
        (passes test s.predicate)).flatMap (d.walk test R) := by
  rw [List.append_cons, walk_append h, walk_concat]

/-- A descent that takes over the next step has no predicate to ask. -/
theorem walk_congr_of_endsOpen {P : List Step} {s : Step} {R : List Step}
    (h : Path.endsOpen (P ++ [s]) = true) (hR : R ≠ []) (q : Option Predicate) (id : NodeId) :
    d.walk test (P ++ { s with predicate := q } :: R) id = d.walk test (P ++ s :: R) id := by
  obtain ⟨next, rest, rfl⟩ := List.exists_cons_of_ne_nil hR
  rw [Path.endsOpen_append_singleton] at h
  obtain ⟨hs, hP⟩ : s.segment = .descend ∧ Path.endsOpen P = false := by simpa using h
  have hclean (t : Step) : Path.CleanCut P (t :: next :: rest) := by simp [Path.CleanCut, hP]
  rw [walk_append (hclean _), walk_append (hclean _)]
  refine List.flatMap_congr fun m _ => ?_
  rw [walk_descend (by exact hs), walk_descend hs]

/-! ## Predicates in paths -/

section Select

variable {bindings : Option (Tree Scalar)} {p : Path} {i : Nat}

/-- A predicate filters the nodes that its step takes, and the steps behind it go on from those that
are left, unless the step is a descent that takes over the next one. -/
theorem select_withPredicate_of_not_takesOver (hi : i < p.steps.length) (h : ¬p.TakesOver i)
    (q : Option Predicate) (id : NodeId) :
    d.select bindings (p.withPredicate i q) id =
      ((d.select bindings ⟨p.absolute,
          p.steps.take i ++ [{ p.steps[i] with predicate := none }]⟩ id).filter
        (passes (d.satisfies bindings) q)).flatMap
          (d.select bindings ⟨false, p.steps.drop (i + 1)⟩) := by
  have hclean : Path.CleanCut (p.steps.take i ++ [{ p.steps[i] with predicate := q }])
      (p.steps.drop (i + 1)) := by
    rw [Path.takesOver_iff hi] at h
    rw [Path.CleanCut, Path.endsOpen_append_singleton]
    grind
  rw [Path.withPredicate_eq hi]
  exact walk_append_cons hclean _

/-- The predicate of a descent that takes over the next step is not asked. -/
theorem select_withPredicate_of_takesOver (hi : i < p.steps.length) (h : p.TakesOver i)
    (q q' : Option Predicate) (id : NodeId) :
    d.select bindings (p.withPredicate i q) id = d.select bindings (p.withPredicate i q') id := by
  obtain ⟨hs, hP, hR⟩ := (Path.takesOver_iff hi).mp h
  have hopen : Path.endsOpen (p.steps.take i ++ [{ p.steps[i] with predicate := q' }]) = true := by
    simp [Path.endsOpen_append_singleton, hs, hP]
  rw [Path.withPredicate_eq hi, Path.withPredicate_eq hi]
  exact walk_congr_of_endsOpen hopen hR q _

end Select

/-! ## Predicates that hold always or never -/

theorem satisfies_one_eq_one (d : Document) (bindings : Option (Tree Scalar)) (negated : Bool)
    (id : NodeId) :
    d.satisfies bindings ⟨negated, "1", .keyword .equal, "1"⟩ id = !negated := by
  have hone : Operand.ofText "1" = .literal (.integer 1) := by decide +kernel
  simp only [satisfies, satisfiesBy, resolve, hone]
  cases negated <;> rfl

/-- A predicate that holds of every node of the document selects what the path selects without it,
and one that holds of no node selects nothing, whatever the step is and whatever stands in front of
it and behind it. There is one exception: a descent that takes over the next step does not ask its
own predicate, so that no predicate makes a difference there. -/
theorem select_withPredicate {d : Document} (h : d.WellFormed) {p : Path} {i : Nat}
    (hi : i < p.steps.length) {id : NodeId} (hid : id < d.nodes.size)
    (bindings : Option (Tree Scalar)) (q : Predicate) :
    ((∀ m < d.nodes.size, d.satisfies bindings q m = true) →
      d.select bindings (p.withPredicate i (some q)) id =
        d.select bindings (p.withPredicate i none) id) ∧
    ((∀ m < d.nodes.size, d.satisfies bindings q m = false) →
      d.select bindings (p.withPredicate i (some q)) id =
        if p.TakesOver i then d.select bindings (p.withPredicate i none) id else []) := by
  by_cases hover : p.TakesOver i
  · rw [if_pos hover]
    have hsame : d.select bindings (p.withPredicate i (some q)) id =
        d.select bindings (p.withPredicate i none) id :=
      select_withPredicate_of_takesOver hi hover (some q) none id
    exact ⟨fun _ => hsame, fun _ => hsame⟩
  · rw [if_neg hover, select_withPredicate_of_not_takesOver hi hover,
      select_withPredicate_of_not_takesOver hi hover]
    set taken := d.select bindings ⟨p.absolute,
      p.steps.take i ++ [{ p.steps[i] with predicate := none }]⟩ id with htaken
    have hlt : ∀ m ∈ taken, m < d.nodes.size := fun m =>
      ForestWith.lt_size_of_mem_walk h.rooted.forest
        (ForestWith.origin_lt_size h.rooted.forest hid _)
    constructor
    · intro hq
      have hall : taken.filter (passes (d.satisfies bindings) (some q)) = taken :=
        List.filter_eq_self.mpr fun m hm => hq m (hlt m hm)
      have hnone : taken.filter (passes (d.satisfies bindings) none) = taken :=
        List.filter_eq_self.mpr fun _ _ => rfl
      rw [hall, hnone]
    · intro hq
      have hnil : taken.filter (passes (d.satisfies bindings) (some q)) = [] :=
        List.filter_eq_nil_iff.mpr fun m hm => by simp [passes, hq m (hlt m hm)]
      rw [hnil, List.flatMap_nil]

/-- A step that is taken over asks its predicate: all members `b` at any depth, or none of them. -/
theorem select_withPredicate_member :
    let d := ofReading (.object [("b", .array [.object [("b", .leaf .null)]])])
    let p := Path.compile "//b/."
    let always : Predicate := ⟨false, "1", .keyword .equal, "1"⟩
    let never : Predicate := ⟨true, "1", .keyword .equal, "1"⟩
    d.WellFormed ∧ 1 < p.steps.length ∧ 0 < d.nodes.size ∧
      (∀ m < d.nodes.size, d.satisfies none always m = true) ∧
      (∀ m < d.nodes.size, d.satisfies none never m = false) ∧
      Path.compile "//b[1 eq 1]/." = p.withPredicate 1 (some always) ∧
      Path.compile "//b[not(1 eq 1)]/." = p.withPredicate 1 (some never) ∧
      d.select none (p.withPredicate 1 none) 0 = [1, 3] ∧
      d.select none (p.withPredicate 1 (some always)) 0 =
        d.select none (p.withPredicate 1 none) 0 ∧
      d.select none (p.withPredicate 1 (some never)) 0 =
        if p.TakesOver 1 then d.select none (p.withPredicate 1 none) 0 else [] := by
  intro d p always never
  have hd : d.WellFormed := (rooted_ofReading _).wellFormed
  have hi : 1 < p.steps.length := by decide +kernel
  have hid : 0 < d.nodes.size := by decide
  have halways : ∀ m < d.nodes.size, d.satisfies none always m = true :=
    fun m _ => satisfies_one_eq_one d none false m
  have hnever : ∀ m < d.nodes.size, d.satisfies none never m = false :=
    fun m _ => satisfies_one_eq_one d none true m
  exact ⟨hd, hi, hid, halways, hnever, by decide +kernel, by decide +kernel, by decide +kernel,
    (select_withPredicate hd hi hid none always).1 halways,
    (select_withPredicate hd hi hid none never).2 hnever⟩

/-- A predicate that holds of no node, on a descent that takes over the next step: the members `b`
are selected all the same. -/
theorem select_withPredicate_ne_nil :
    let d := ofReading (.object [("b", .leaf .null)])
    let p := Path.compile "//b"
    let never : Predicate := ⟨true, "1", .keyword .equal, "1"⟩
    d.WellFormed ∧ Path.compileStrict "/[not(1 eq 1)]/b" = .ok (p.withPredicate 0 (some never)) ∧
      (∀ m < d.nodes.size, d.satisfies none never m = false) ∧
      d.select none (p.withPredicate 0 (some never)) d.root = [1] :=
  ⟨(rooted_ofReading _).wellFormed, by decide +kernel,
    fun m _ => satisfies_one_eq_one _ none true m, by decide +kernel⟩

/-! ## A predicate and its negation -/

/-- The last step has its predicate asked in any case. -/
theorem select_withPredicate_length_sub_one {p : Path} (hp : p.steps ≠ [])
    (bindings : Option (Tree Scalar)) (q : Option Predicate) (id : NodeId) :
    d.select bindings (p.withPredicate (p.steps.length - 1) q) id =
      (d.select bindings (p.withPredicate (p.steps.length - 1) none) id).filter
        (passes (d.satisfies bindings) q) := by
  have hlength := List.length_pos_iff.mpr hp
  have hlast : p.steps.drop (p.steps.length - 1 + 1) = [] := by
    rw [List.drop_eq_nil_iff]
    omega
  have hi : p.steps.length - 1 < p.steps.length := by omega
  have hover : ¬p.TakesOver (p.steps.length - 1) := by
    rintro ⟨-, hlt⟩
    omega
  rw [select_withPredicate_of_not_takesOver hi hover, Path.withPredicate_eq hi, hlast]
  change List.flatMap (d.walk (d.satisfies bindings) []) _ = _
  exact flatMap_walk_nil _

/-- The negation of a predicate holds where the predicate does not. -/
theorem satisfies_negated (d : Document) (bindings : Option (Tree Scalar)) (q : Predicate)
    (id : NodeId) :
    d.satisfies bindings { q with negated := !q.negated } id = !d.satisfies bindings q id := by
  simp only [satisfies, satisfiesBy]
  cases q.negated <;> simp

/-- A predicate and its negation divide what a path selects: with the predicate in its last step it
selects the nodes that satisfy it, and with the negation the others, in the same order and with the
same repetitions. -/
theorem select_withPredicate_last {p : Path} (hp : p.steps ≠ []) (d : Document)
    (bindings : Option (Tree Scalar)) (left : String) (op : Operator) (right : String)
    (id : NodeId) :
    let last := p.steps.length - 1
    let all := d.select bindings (p.withPredicate last none) id
    let q : Predicate := ⟨false, left, op, right⟩
    d.select bindings (p.withPredicate last (some q)) id = all.filter (d.satisfies bindings q) ∧
      d.select bindings (p.withPredicate last (some { q with negated := true })) id =
        all.filter fun m => !d.satisfies bindings q m := by
  intro last all q
  refine ⟨select_withPredicate_length_sub_one hp bindings (some q) id, ?_⟩
  rw [select_withPredicate_length_sub_one hp]
  refine List.filter_congr fun m _ => ?_
  exact satisfies_negated d bindings q m

/-- The members `n` that are greater than two, and the others, at any depth. A text is not greater
than a number. -/
theorem select_withPredicate_last_member :
    let d := ofReading (.array [.object [("n", .leaf (.integer 3))],
      .object [("n", .leaf (.string "x"))], .object [("n", .leaf (.integer 1))]])
    let p := Path.compile "//n"
    p.steps ≠ [] ∧
      (let last := p.steps.length - 1
       let all := d.select none (p.withPredicate last none) 0
       let q : Predicate := ⟨false, ".", .keyword .greater, "2"⟩
       all = [2, 4, 6] ∧ all.map (d.satisfies none q) = [true, false, false] ∧
        d.select none (p.withPredicate last (some q)) 0 = all.filter (d.satisfies none q) ∧
        d.select none (p.withPredicate last (some { q with negated := true })) 0 =
          all.filter fun m => !d.satisfies none q m) := by
  intro d p
  have hp : p.steps ≠ [] := by decide +kernel
  exact ⟨hp, by decide +kernel, by decide +kernel,
    select_withPredicate_last hp d none "." (.keyword .greater) "2" 0⟩

end Document

end Reshape
