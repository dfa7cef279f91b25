import Reshape.Proofs.Path.Axis
import Reshape.Proofs.Path.Filter
import Reshape.Proofs.Path.Nesting

/-!
# Evaluating paths

Nothing bounds the evaluation of a path by itself. It climbs as long as there is a container,
searches as long as there are children, and asks predicates whose operands are paths, which are
compiled when they are asked and evaluated in the same way. So it is a relation here, with a rule
for each thing that can happen, and it ends where it can be derived.

The relation counts how many predicates may be open at once. For the path of any text this is one,
because its operands have no predicates.

## Main definitions

* `Document.Climbs`, `Document.Finds`: the loop upwards and the search for a name.
* `Document.Collects`, `Document.Takes`, `Document.Descends`, `Document.Begins`: what a step takes,
  and where a path begins.
* `Document.Follows`, `Document.GoesOn`, `Document.Passes`, `Document.Denotes`: steps, predicates
  and operands.
* `Document.Evaluates`: the evaluation of a path.
* `Document.satisfiesWithin`: whether a node satisfies a predicate, asked on some levels only.

## Main statements

* `Rooted.collects_iff`, `Rooted.takes_iff`, `Rooted.descends_iff`, `Rooted.begins_iff`: in a
  well-formed document every loop ends, with what the functions list.
* `Follows.eq_walk`, `Follows.unique`: what an evaluation gives is determined.
* `Rooted.follows_walk`, `Rooted.answers_of_nests`: an evaluation ends if its predicates are
  answered, and they are if they are nested no deeper than it may ask.
* `Document.evaluates_compileWith`.
-/

namespace Reshape

/-- An operand that is a path is the path of its text. -/
theorem Operand.eq_compile_of_ofText {text : String} {p : Path}
    (h : Operand.ofText text = .path p) : p = Path.compile text := by
  unfold Operand.ofText at h
  split at h
  · cases h
  · split at h
    · cases h
    · cases h
      rfl

namespace Document

/-! ## Loops -/

section Loops

variable (d : Document)

/-- Climbing from a node as long as there is a container lists `out`. -/
inductive Climbs : NodeId → List NodeId → Prop
  | top {id : NodeId} : d.parent id = none → Climbs id []
  | up {id p : NodeId} {out : List NodeId} :
      d.parent id = some p → Climbs p out → Climbs id (p :: out)

/-- Searching a row of nodes, each before its children, for the members of a name lists `out`. -/
inductive Finds (name : String) : List NodeId → List NodeId → Prop
  | nil : Finds name [] []
  | cons {id : NodeId} {ids below out : List NodeId} :
      Finds name (d.children id) below → Finds name ids out →
      Finds name (id :: ids) ((d.childByName? id name).toList ++ (below ++ out))

/-- What is collected along an axis: with a loop, or among the neighbours of the node. -/
inductive Collects (id : NodeId) : Axis → List NodeId → Prop
  | ancestor {out : List NodeId} : d.Climbs id out → Collects id .ancestor out
  | ancestorOrSelf {out : List NodeId} : d.Climbs id out → Collects id .ancestorOrSelf (id :: out)
  | descendant {out : List NodeId} : d.Visits (d.children id) out → Collects id .descendant out
  | descendantOrSelf {out : List NodeId} :
      d.Visits (d.children id) out → Collects id .descendantOrSelf (id :: out)
  | near {a : Axis} : a ∉ [.ancestor, .ancestorOrSelf, .descendant, .descendantOrSelf] →
      Collects id a (d.axis id a)

/-- What a step takes. A descent takes the node itself. -/
inductive Takes (s : Step) (id : NodeId) : List NodeId → Prop
  | current {out : List NodeId} :
      s.segment = .current → d.Collects id s.axis out → Takes s id out
  | parent : s.segment = .parent → Takes s id (d.parent id).toList
  | wildcard : s.segment = .wildcard → Takes s id (d.children id)
  | descend : s.segment = .descend → Takes s id [id]
  | name {text : String} {out : List NodeId} :
      s.segment = .name text → d.Collects id s.axis out →
      Takes s id (out.filterMap (d.namedChild? · text))
  | inert : s.segment = .inert → Takes s id []

/-- What a descent in front of a step takes for it. -/
inductive Descends (next : Step) (id : NodeId) : List NodeId → Prop
  | inert : next.segment = .inert → Descends next id []
  | finds {out : List NodeId} :
      next.segment ≠ .inert → d.Finds next.segment.text [id] out → Descends next id out

/-- Where a path begins: at the node, or at the last of the containers around it. -/
inductive Begins (p : Path) (id : NodeId) : NodeId → Prop
  | relative : p.absolute = false → Begins p id id
  | absolute {out : List NodeId} :
      p.absolute = true → d.Climbs id out → Begins p id (out.getLastD id)

end Loops

/-! ## Steps, predicates and operands -/

section Relations

variable (d : Document) (bindings : Option (Tree Scalar))

mutual

/-- Following a row of steps from a node lists `out`, with at most `n` predicates open at once. -/
inductive Follows : Nat → List Step → NodeId → List NodeId → Prop
  | done {n : Nat} {id : NodeId} : Follows n [] id [id]
  | take {n : Nat} {s : Step} {rest : List Step} {id : NodeId} {ids out : List NodeId} :
      (s.segment = .descend → rest = []) → d.Takes s id ids →
      GoesOn n s.predicate rest ids out → Follows n (s :: rest) id out
  | descend {n : Nat} {s next : Step} {rest : List Step} {id : NodeId} {ids out : List NodeId} :
      s.segment = .descend → d.Descends next id ids →
      GoesOn n next.predicate rest ids out → Follows n (s :: next :: rest) id out

/-- Following a row of steps from those of some nodes that pass a predicate. -/
inductive GoesOn : Nat → Option Predicate → List Step → List NodeId → List NodeId → Prop
  | nil {n : Nat} {q : Option Predicate} {rest : List Step} : GoesOn n q rest [] []
  | skip {n : Nat} {q : Option Predicate} {rest : List Step} {id : NodeId}
      {ids out : List NodeId} :
      Passes n q id false → GoesOn n q rest ids out → GoesOn n q rest (id :: ids) out
  | go {n : Nat} {q : Option Predicate} {rest : List Step} {id : NodeId}
      {ids out out' : List NodeId} :
      Passes n q id true → Follows n rest id out → GoesOn n q rest ids out' →
      GoesOn n q rest (id :: ids) (out ++ out')

/-- Asking the predicate of a step, if there is one. Its operands may open one less. -/
inductive Passes : Nat → Option Predicate → NodeId → Bool → Prop
  | free {n : Nat} {id : NodeId} : Passes n none id true
  | ask {n : Nat} {q : Predicate} {id : NodeId} {left right : List (Tree Scalar)} :
      Denotes n q.left id left → Denotes n q.right id right →
      Passes (n + 1) (some q) id (q.operator.compare left right != q.negated)

/-- The trees that an operand denotes at a node. A path stands for what lies below the nodes that it
selects. -/
inductive Denotes : Nat → String → NodeId → List (Tree Scalar) → Prop
  | binding {n : Nat} {text name : String} {id : NodeId} :
      Operand.ofText text = .binding name →
      Denotes n text id (bindings.bind (·.member? name)).toList
  | literal {n : Nat} {text : String} {s : Scalar} {id : NodeId} :
      Operand.ofText text = .literal s → Denotes n text id [.leaf s]
  | path {n : Nat} {text : String} {p : Path} {id start : NodeId} {ids : List NodeId}
      {trees : List (Tree Scalar)} :
      Operand.ofText text = .path p → d.Begins p id start → Follows n p.steps start ids →
      ShowsItems d ids trees → Denotes n text id trees

end

/-- Evaluating a path from a node lists `out`, with at most `n` predicates open at once. -/
def Evaluates (n : Nat) (p : Path) (id : NodeId) (out : List NodeId) : Prop :=
  ∃ start, d.Begins p id start ∧ d.Follows bindings n p.steps start out

/-- Whether a node satisfies a predicate, where predicates are asked on `n` levels and hold on all
deeper ones. -/
def satisfiesWithin : Nat → Predicate → NodeId → Bool
  | 0 => fun _ _ => true
  | n + 1 => d.satisfiesBy bindings (satisfiesWithin n)

end Relations

variable {d : Document} {bindings : Option (Tree Scalar)} {test : Predicate → NodeId → Bool}

/-! ## Loops end -/

theorem Visits.unique {stack out out' : List NodeId} (h : d.Visits stack out)
    (h' : d.Visits stack out') : out = out' :=
  (h.visitStack_eq (le_max_left _ out'.length)).symm.trans (h'.visitStack_eq (le_max_right _ _))

theorem Finds.unique {name : String} {ids out out' : List NodeId} (h : d.Finds name ids out)
    (h' : d.Finds name ids out') : out = out' := by
  induction h generalizing out' with
  | nil =>
    cases h' with
    | nil => rfl
  | cons _ _ ihbelow ihrest =>
    cases h' with
    | cons hbelow hrest => rw [ihbelow hbelow, ihrest hrest]

namespace Rooted

variable (h : d.Rooted)
include h

theorem climbs_iff {id : NodeId} {out : List NodeId} : d.Climbs id out ↔ out = d.ancestors id := by
  constructor
  · intro hclimbs
    induction hclimbs with
    | top hnone => rw [ForestWith.ancestors_of_parent_eq_none hnone]
    | up hsome _ ih => rw [h.forest.ancestors_of_parent_eq_some hsome, ih]
  · rintro rfl
    induction id using h.forest.wellFounded.induction with
    | h id ih =>
      rcases hp : d.parent id with _ | p
      · rw [ForestWith.ancestors_of_parent_eq_none hp]
        exact .top hp
      · rw [h.forest.ancestors_of_parent_eq_some hp]
        exact .up hp (ih p hp)

theorem visits_children_iff {id : NodeId} {out : List NodeId} :
    d.Visits (d.children id) out ↔ out = d.descendants id := by
  rw [h.descendants_eq]
  exact ⟨fun hvisits => hvisits.unique (h.visits _), fun hout => hout ▸ h.visits _⟩

/-- The search of a node is its own member and the search of its children. -/
theorem searchNamed_eq (id : NodeId) (name : String) : d.searchNamed id name =
    (d.childByName? id name).toList ++ (d.children id).flatMap (d.searchNamed · name) := by
  rw [searchNamed, h.preorder_eq, List.filterMap_cons, List.filterMap_flatMap]
  rcases d.childByName? id name with _ | c <;> rfl

theorem finds_searchNamed (name : String) (ids : List NodeId) :
    d.Finds name ids (ids.flatMap (d.searchNamed · name)) := by
  have hcons : ∀ ids, (∀ id ∈ ids, d.Finds name (d.children id)
      ((d.children id).flatMap (d.searchNamed · name))) →
      d.Finds name ids (ids.flatMap (d.searchNamed · name)) := by
    intro ids hids
    induction ids with
    | nil => exact .nil
    | cons id ids ih =>
      rw [List.forall_mem_cons] at hids
      rw [List.flatMap_cons, h.searchNamed_eq, List.append_assoc]
      exact .cons hids.1 (ih hids.2)
  have hbelow : ∀ id,
      d.Finds name (d.children id) ((d.children id).flatMap (d.searchNamed · name)) := by
    intro id
    induction id using h.forest.wellFounded_below.induction with
    | h id ih => exact hcons _ fun c hc => ih c (h.forest.mem_children_iff.mp hc)
  exact hcons ids fun id _ => hbelow id

/-- Whatever is collected along an axis is what lies on it. -/
theorem collects_iff {id : NodeId} {a : Axis} {out : List NodeId} :
    d.Collects id a out ↔ out = d.axis id a := by
  constructor
  · rintro (hclimbs | hclimbs | hvisits | hvisits | -)
    · exact h.climbs_iff.mp hclimbs
    · exact congrArg _ (h.climbs_iff.mp hclimbs)
    · exact h.visits_children_iff.mp hvisits
    · exact congrArg _ (h.visits_children_iff.mp hvisits)
    · rfl
  · rintro rfl
    cases a with
    | ancestor => exact .ancestor (h.climbs_iff.mpr rfl)
    | ancestorOrSelf => exact .ancestorOrSelf (h.climbs_iff.mpr rfl)
    | descendant => exact .descendant (h.visits_children_iff.mpr rfl)
    | descendantOrSelf => exact .descendantOrSelf (h.visits_children_iff.mpr rfl)
    | _ => exact .near (by simp)

theorem takes_iff {s : Step} {id : NodeId} {out : List NodeId} :
    d.Takes s id out ↔ out = d.candidates s id := by
  constructor
  · intro htakes
    cases htakes with
    | current hs hcollects => rw [candidates, hs, h.collects_iff.mp hcollects]
    | name hs hcollects => rw [candidates, hs, h.collects_iff.mp hcollects]
    | _ hs => rw [candidates, hs]
  · rintro rfl
    rcases hs : s.segment with _ | _ | _ | _ | text | _ <;> rw [candidates, hs]
    · exact .current hs (h.collects_iff.mpr rfl)
    · exact .parent hs
    · exact .wildcard hs
    · exact .descend hs
    · exact .name hs (h.collects_iff.mpr rfl)
    · exact .inert hs

theorem descends_iff {next : Step} {id : NodeId} {out : List NodeId} :
    d.Descends next id out ↔
      out = if next.segment = .inert then [] else d.searchNamed id next.segment.text := by
  have hfinds := h.finds_searchNamed next.segment.text [id]
  rw [List.flatMap_singleton] at hfinds
  split
  · next hs =>
    constructor
    · rintro (- | ⟨hne, -⟩)
      · rfl
      · exact absurd hs hne
    · rintro rfl
      exact .inert hs
  · next hs =>
    constructor
    · rintro (hinert | ⟨-, hout⟩)
      · exact absurd hinert hs
      · exact hout.unique hfinds
    · rintro rfl
      exact .finds hs hfinds

theorem begins_iff {p : Path} {id start : NodeId} :
    d.Begins p id start ↔ start = d.origin p id := by
  constructor
  · rintro (hp | ⟨hp, hclimbs⟩)
    · rw [origin, hp, if_neg Bool.false_ne_true]
    · rw [origin, hp, if_pos rfl, top, h.climbs_iff.mp hclimbs]
  · rintro rfl
    rcases hp : p.absolute with _ | _
    · rw [origin, hp, if_neg Bool.false_ne_true]
      exact .relative hp
    · rw [origin, hp, if_pos rfl]
      exact .absolute hp (h.climbs_iff.mpr rfl)

end Rooted

/-! ## Evaluations are determined -/

/-- Where the steps behind a descent are taken over by it, and otherwise, a step takes its nodes and
the others go on from those that pass its predicate. -/
theorem walk_take {s : Step} {rest : List Step} (hrest : s.segment = .descend → rest = [])
    (id : NodeId) : d.walk test (s :: rest) id =
      ((d.candidates s id).filter (passes test s.predicate)).flatMap (d.walk test rest) := by
  by_cases hs : s.segment = .descend
  · rw [hrest hs, flatMap_walk_nil, walk]
  · exact walk_cons hs rest id

/-- What a descent takes is in the document. -/
theorem Descends.lt_size (h : d.Rooted) {next : Step} {id m : NodeId} {ids : List NodeId}
    (hdescends : d.Descends next id ids) (hm : m ∈ ids) : m < d.nodes.size := by
  rw [h.descends_iff.mp hdescends] at hm
  split at hm
  · cases hm
  · obtain ⟨n, -, hname⟩ := List.mem_filterMap.mp hm
    exact h.forest.lt_size_of_mem_children (mem_children_of_childByName? hname)

/-- A path denotes the trees below the nodes that it leads to. -/
theorem resolve_path {text : String} {p : Path} (htext : Operand.ofText text = .path p)
    (id : NodeId) :
    d.resolve bindings test id text = (d.walk test p.steps (d.origin p id)).map d.tree := by
  rw [resolve, htext]

mutual

/-- Steps that are followed lead to the nodes at their end, where predicates are asked on as many
levels as might be open, or on more. -/
theorem Follows.eq_walk (h : d.Rooted) (k : Nat) : ∀ {n : Nat} {steps : List Step} {id : NodeId}
    {out : List NodeId}, d.Follows bindings n steps id out → id < d.nodes.size →
    out = d.walk (d.satisfiesWithin bindings (k + n)) steps id
  | _, _, _, _, .done, _ => rfl
  | _, _, _, _, .take hrest htakes hgo, hid => by
    have hids := h.takes_iff.mp htakes
    rw [walk_take hrest, ← hids]
    exact hgo.eq_flatMap h k fun m hm =>
      ForestWith.lt_size_of_mem_candidates h.forest hid (hids ▸ hm)
  | _, _, _, _, .descend hs hdescends hgo, _ => by
    have hout := hgo.eq_flatMap h k fun m hm => hdescends.lt_size h hm
    rw [hout, h.descends_iff.mp hdescends, walk_descend hs]
    split <;> rfl

theorem GoesOn.eq_flatMap (h : d.Rooted) (k : Nat) : ∀ {n : Nat} {q : Option Predicate}
    {rest : List Step} {ids out : List NodeId}, d.GoesOn bindings n q rest ids out →
    (∀ m ∈ ids, m < d.nodes.size) →
    out = (ids.filter (passes (d.satisfiesWithin bindings (k + n)) q)).flatMap
      (d.walk (d.satisfiesWithin bindings (k + n)) rest)
  | _, _, _, _, _, .nil, _ => rfl
  | _, _, _, _, _, .skip hpasses hgo, hids => by
    rw [List.forall_mem_cons] at hids
    have hfalse := hpasses.eq_passes h k hids.1
    rw [List.filter_cons_of_neg (by simp [← hfalse])]
    exact hgo.eq_flatMap h k hids.2
  | _, _, _, _, _, .go hpasses hfollows hgo, hids => by
    rw [List.forall_mem_cons] at hids
    have htrue := hpasses.eq_passes h k hids.1
    rw [List.filter_cons_of_pos htrue.symm, List.flatMap_cons, ← hfollows.eq_walk h k hids.1,
      ← hgo.eq_flatMap h k hids.2]

theorem Passes.eq_passes (h : d.Rooted) (k : Nat) : ∀ {n : Nat} {q : Option Predicate}
    {id : NodeId} {b : Bool}, d.Passes bindings n q id b → id < d.nodes.size →
    b = passes (d.satisfiesWithin bindings (k + n)) q id
  | _, _, _, _, .free, _ => rfl
  | _, _, _, _, .ask hleft hright, hid => by
    rw [hleft.eq_resolve h k hid, hright.eq_resolve h k hid]
    rfl

theorem Denotes.eq_resolve (h : d.Rooted) (k : Nat) : ∀ {n : Nat} {text : String} {id : NodeId}
    {trees : List (Tree Scalar)}, d.Denotes bindings n text id trees → id < d.nodes.size →
    trees = d.resolve bindings (d.satisfiesWithin bindings (k + n)) id text
  | _, _, _, _, .binding htext, _ => by rw [resolve, htext]
  | _, _, _, _, .literal htext, _ => by rw [resolve, htext]
  | _, _, _, _, .path (p := p) htext hbegins hfollows hshows, hid => by
    have hstart := h.begins_iff.mp hbegins
    have hlt := hstart ▸ ForestWith.origin_lt_size h.forest hid p
    have hids := hfollows.eq_walk h k hlt
    rw [resolve_path htext, ← hstart]
    refine hshows.unique (hids ▸ showsItems_map fun m hm => ?_)
    exact h.forest.shows_tree (ForestWith.lt_size_of_mem_walk h.forest hlt (hids ▸ hm))

end

/-- Steps that are followed twice lead to the same nodes, whatever may be open. -/
theorem Follows.unique (h : d.Rooted) {n n' : Nat} {steps : List Step} {id : NodeId}
    {out out' : List NodeId} (hid : id < d.nodes.size) (hout : d.Follows bindings n steps id out)
    (hout' : d.Follows bindings n' steps id out') : out = out' := by
  rw [hout.eq_walk h n' hid, hout'.eq_walk h n hid, Nat.add_comm]

/-! ## Evaluations end -/

/-- Whether the predicates that are asked can be asked, with the answers of `test`. -/
def Answers (d : Document) (bindings : Option (Tree Scalar)) (test : Predicate → NodeId → Bool)
    (n : Nat) (steps : List Step) : Prop :=
  ∀ s ∈ steps, ∀ id < d.nodes.size, d.Passes bindings n s.predicate id (passes test s.predicate id)

/-- Without predicates there is nothing to ask. -/
theorem answers_of_nests_zero {steps : List Step} (hsteps : Path.Nests 0 steps) (n : Nat) :
    d.Answers bindings test n steps := by
  intro s hs id _
  rw [hsteps s hs]
  exact .free

theorem goesOn_flatMap {n : Nat} {q : Option Predicate} {rest : List Step} {ids : List NodeId}
    (hpasses : ∀ m ∈ ids, d.Passes bindings n q m (passes test q m))
    (hrest : ∀ m ∈ ids, d.Follows bindings n rest m (d.walk test rest m)) :
    d.GoesOn bindings n q rest ids ((ids.filter (passes test q)).flatMap (d.walk test rest)) := by
  induction ids with
  | nil => exact .nil
  | cons m ids ih =>
    rw [List.forall_mem_cons] at hpasses hrest
    have hgo := ih hpasses.2 hrest.2
    rcases hm : passes test q m with _ | _
    · rw [List.filter_cons_of_neg (by simp [hm])]
      exact .skip (hm ▸ hpasses.1) hgo
    · rw [List.filter_cons_of_pos hm, List.flatMap_cons]
      exact .go (hm ▸ hpasses.1) hrest.1 hgo

namespace Rooted

variable (h : d.Rooted)
include h

/-- Where predicates are answered, steps can be followed to their end. -/
theorem follows_walk {n : Nat} {steps : List Step} (hsteps : d.Answers bindings test n steps)
    {id : NodeId} (hid : id < d.nodes.size) :
    d.Follows bindings n steps id (d.walk test steps id) := by
  fun_induction Path.endsOpen steps generalizing id with
  | case1 => exact .done
  | case2 s =>
    have hlt := fun m => ForestWith.lt_size_of_mem_candidates h.forest (s := s) (m := m) hid
    rw [walk_take fun _ => rfl]
    exact .take (fun _ => rfl) (h.takes_iff.mpr rfl)
      (goesOn_flatMap (fun m hm => hsteps s (by simp) m (hlt m hm)) fun m _ => .done)
  | case3 s next rest hs ih =>
    rw [walk_descend hs]
    refine .descend hs (h.descends_iff.mpr rfl) ?_
    by_cases hinert : next.segment = .inert
    · rw [if_pos hinert, if_pos hinert]
      exact .nil
    · rw [if_neg hinert, if_neg hinert]
      have hlt : ∀ m ∈ d.searchNamed id next.segment.text, m < d.nodes.size := fun m hm =>
        (h.descends_iff.mpr (if_neg hinert).symm).lt_size h hm
      exact goesOn_flatMap (fun m hm => hsteps next (by simp) m (hlt m hm)) fun m hm =>
        ih (fun s hs => hsteps s (by simp [hs])) (hlt m hm)
  | case4 s next rest hs ih =>
    have hlt := fun m => ForestWith.lt_size_of_mem_candidates h.forest (s := s) (m := m) hid
    rw [walk_cons hs]
    refine .take (absurd · hs) (h.takes_iff.mpr rfl)
      (goesOn_flatMap (fun m hm => hsteps s (by simp) m (hlt m hm)) fun m hm => ?_)
    exact ih (fun s hs => hsteps s (List.mem_cons_of_mem _ hs)) (hlt m hm)

/-- Where the predicates of its path are answered, an operand denotes something. -/
theorem denotes_resolve {n : Nat} {text : String}
    (htext : d.Answers bindings test n (Path.compile text).steps) {id : NodeId}
    (hid : id < d.nodes.size) :
    d.Denotes bindings n text id (d.resolve bindings test id text) := by
  rcases hoperand : Operand.ofText text with name | s | p
  · rw [resolve, hoperand]
    exact .binding hoperand
  · rw [resolve, hoperand]
    exact .literal hoperand
  · have hstart := ForestWith.origin_lt_size h.forest hid p
    have hsteps : d.Answers bindings test n p.steps := by
      rwa [Operand.eq_compile_of_ofText hoperand]
    rw [resolve_path hoperand]
    refine .path hoperand (h.begins_iff.mpr rfl) (h.follows_walk hsteps hstart) ?_
    exact showsItems_map fun m hm =>
      h.forest.shows_tree (ForestWith.lt_size_of_mem_walk h.forest hstart hm)

/-- Predicates are answered where they are nested no deeper than they may be open. -/
theorem answers_of_nests (k : Nat) {n : Nat} {steps : List Step} (hsteps : Path.Nests n steps) :
    d.Answers bindings (d.satisfiesWithin bindings (k + n)) n steps := by
  induction n generalizing steps with
  | zero => exact answers_of_nests_zero hsteps 0
  | succ n ih =>
    intro s hs id hid
    rcases hq : s.predicate with _ | q
    · exact .free
    · obtain ⟨hleft, hright⟩ := hsteps s hs q hq
      exact .ask (h.denotes_resolve (ih hleft) hid) (h.denotes_resolve (ih hright) hid)

end Rooted

/-! ## Compiled paths -/

/-- Predicates are asked on one level. The operands of a predicate of a compiled path are compiled
to paths without predicates. So the path is evaluated from each node with one predicate open at
most, the evaluation ends with what the path selects and can end with nothing else, and each operand
is evaluated with no predicate open beside it, whatever the answers of `test` are. -/
theorem evaluates_compileWith {strict : Bool} {text : String} {p : Path}
    (hp : Path.compileWith strict text = .ok p) :
    (∀ s ∈ p.steps, ∀ q ∈ s.predicate, ∀ operand ∈ [q.left, q.right], ∀ strict' p',
      Path.compileWith strict' operand = .ok p' → ∀ s' ∈ p'.steps, s'.predicate = none) ∧
    ∀ d : Document, d.WellFormed → ∀ bindings, ∀ id < d.nodes.size,
      d.Evaluates bindings 1 p id (d.select bindings p id) ∧
      (∀ n out, d.Evaluates bindings n p id out → out = d.select bindings p id) ∧
      ∀ s ∈ p.steps, ∀ q ∈ s.predicate, ∀ operand ∈ [q.left, q.right], ∀ test,
        d.Denotes bindings 0 operand id (d.resolve bindings test id operand) := by
  obtain rfl := Path.eq_compile_of_compileWith hp
  have hnests := Path.nests_one_compile text
  have hoperand : ∀ s ∈ (Path.compile text).steps, ∀ q ∈ s.predicate,
      ∀ operand ∈ [q.left, q.right], Path.Nests 0 (Path.compile operand).steps := by
    intro s hs q hq operand hmem
    simp only [List.mem_cons, List.not_mem_nil, or_false] at hmem
    rcases hmem with rfl | rfl
    · exact (hnests s hs q hq).1
    · exact (hnests s hs q hq).2
  refine ⟨fun s hs q hq operand hmem strict' p' hp' => ?_, fun d hd bindings id hid => ?_⟩
  · obtain rfl := Path.eq_compile_of_compileWith hp'
    exact hoperand s hs q hq operand hmem
  · have hbegins := hd.rooted.begins_iff.mpr (Eq.refl (d.origin (Path.compile text) id))
    have hstart := ForestWith.origin_lt_size hd.rooted.forest hid (Path.compile text)
    have hselect : d.Follows bindings 1 (Path.compile text).steps _
        (d.select bindings (Path.compile text) id) :=
      hd.rooted.follows_walk (hd.rooted.answers_of_nests 1 hnests) hstart
    refine ⟨⟨_, hbegins, hselect⟩, fun n out ⟨start, hbegins', hout⟩ => ?_,
      fun s hs q hq operand hmem test => ?_⟩
    · obtain rfl := hd.rooted.begins_iff.mp hbegins'
      exact hout.unique hd.rooted hstart hselect
    · exact hd.rooted.denotes_resolve
        (answers_of_nests_zero (hoperand s hs q hq operand hmem) 0) hid

/-- Operands that open brackets. Behind a bracket that is not closed an operand ends with a descent,
which selects the node itself. -/
theorem evaluates_compileWith_brackets :
    let d := ofReading (.array [.object [("b", .leaf .null)],
      .object [("b", .leaf (.boolean true))]])
    let q : Predicate := ⟨false, "b[", .symbol .equal, "/1/b["⟩
    let p : Path := ⟨false, [⟨.self, .wildcard, some q⟩]⟩
    Path.compileWith true "*[b[ = /1/b[]" = .ok p ∧ d.WellFormed ∧ d.root < d.nodes.size ∧
      d.select none p d.root = [3] ∧ d.Evaluates none 1 p d.root [3] ∧
      (Path.compile q.right).steps ≠ [] ∧ (∀ s ∈ (Path.compile q.right).steps, s.predicate = none) ∧
      d.Denotes none 0 q.right d.root [.leaf (.boolean true)] := by
  intro d q p
  have hp : Path.compileWith true "*[b[ = /1/b[]" = .ok p := by decide +kernel
  have hd : d.WellFormed := (rooted_ofReading _).wellFormed
  have hroot : d.root < d.nodes.size := by decide
  have hselect : d.select none p d.root = [3] := by decide +kernel
  obtain ⟨hoperands, hends⟩ := evaluates_compileWith hp
  obtain ⟨hevaluates, -, hdenotes⟩ := hends d hd none d.root hroot
  have htext : Operand.ofText q.right = .path (Path.compile q.right) := by decide +kernel
  have hwalk : d.walk (fun _ _ => true) (Path.compile q.right).steps
      (d.origin (Path.compile q.right) d.root) = [4] := by decide +kernel
  have hright : d.resolve none (fun _ _ => true) d.root q.right = [.leaf (.boolean true)] := by
    rw [resolve_path htext, hwalk]
    rfl
  refine ⟨hp, hd, hroot, hselect, hselect ▸ hevaluates, by decide +kernel,
    hoperands _ (List.mem_singleton_self _) q rfl q.right (by simp) false _ rfl, ?_⟩
  exact hright ▸ hdenotes _ (List.mem_singleton_self _) q rfl q.right (by simp) _

end Document

end Reshape
