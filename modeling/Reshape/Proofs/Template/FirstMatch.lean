import Reshape.Proofs.Template.Acceptance
import Reshape.Proofs.Template.Simulation
import Reshape.Proofs.Template.Strict

/-!
# Only first matches matter

Of the templates that describe a node only the first has a say. So entries behind those that are
asked change nothing, and neither does an entry that others always forestall.

## Main definitions

* `Template.Forestalled`: an entry that is never the first to describe a node.

## Main statements

* `Template.refines_meaning`: what rules mean strictly, they mean in front of others.
* `Template.meaning_congr`: rules that are found alike mean the same.
* `Template.Forestalled.find?_eq`: a forestalled entry is never found.
* `Transformer.renderNode_firstMatch`.
-/

namespace Reshape

open Template (Error Outcome Setting)

/-- A node has an address with at least one key. -/
theorem Document.address_ne_nil (d : Document) (id : NodeId) : d.address id ≠ [] := by
  unfold address
  split
  · simp
  · next h => exact h

namespace Template

/-! ## Further rules -/

section Contents

variable {α : Type} {make make' : α → Outcome} (h : ∀ a, Refines (make a) (make' a))
include h

theorem refines_contents (as : List α) : Refines (contents make as) (contents make' as) := by
  induction as with
  | nil => exact .refl _
  | cons a rest ih => exact (h a).bind fun content => ih.bind fun others => .refl _

end Contents

section Expand

variable (s : Setting) {strict : Bool} {apply : NodeId → Outcome}

theorem refines_applied (happly : ∀ id, Refines (s.apply id) (apply id))
    (directive : Tree Scalar) :
    Refines (s.applied directive) ({ s with strict, apply }.applied directive) := by
  have hselect : { s with strict, apply }.select directive = s.select directive := rfl
  have hmany : ∀ ids, Refines (do return some (.array (← contents s.apply ids)) : Outcome)
      (do return some (.array (← contents apply ids))) :=
    fun ids => (refines_contents happly ids).bind fun _ => .refl _
  unfold Setting.applied
  rw [hselect]
  rcases ((directive.member? "$array").bind Tree.boolean?).getD true with _ | _
  · rcases s.select directive with _ | ⟨id, _ | ⟨_, _⟩⟩
    · exact hmany _
    · exact happly id
    · exact hmany _
  · exact hmany _

theorem refines_copyOf (hs : s.strict = true) (directive : Tree Scalar) :
    Refines (s.copyOf directive) ({ s with strict, apply }.copyOf directive) := by
  have hfirst : { s with strict, apply }.first? directive = s.first? directive := rfl
  unfold Setting.copyOf
  rw [hfirst, hs]
  rcases s.first? directive with _ | t
  · exact .error _ _
  · exact .refl _

mutual

/-- What a spec means strictly it means otherwise, if what templates make of nodes does. -/
theorem refines_expand (hs : s.strict = true) (happly : ∀ id, Refines (s.apply id) (apply id)) :
    ∀ t : Tree Scalar, Refines (s.expand t) ({ s with strict, apply }.expand t)
  | .leaf v => .refl _
  | .array items => by
    unfold Setting.expand
    exact (refines_expandItems hs happly items).bind fun _ => .refl _
  | .object ms => by
    unfold Setting.expand
    split
    · exact refines_applied s happly _
    · split
      · exact .refl _
      · split
        · exact refines_copyOf s hs _
        · exact (refines_expandMembers hs happly ms).bind fun _ => .refl _

theorem refines_expandItems (hs : s.strict = true)
    (happly : ∀ id, Refines (s.apply id) (apply id)) :
    ∀ ts : List (Tree Scalar),
      Refines (s.expandItems ts) ({ s with strict, apply }.expandItems ts)
  | [] => .refl _
  | t :: rest => by
    unfold Setting.expandItems
    refine (refines_expand hs happly t).bind fun _ => ?_
    exact (refines_expandItems hs happly rest).bind fun _ => .refl _

theorem refines_expandMembers (hs : s.strict = true)
    (happly : ∀ id, Refines (s.apply id) (apply id)) :
    ∀ ms : List (String × Tree Scalar),
      Refines (s.expandMembers ms) ({ s with strict, apply }.expandMembers ms)
  | [] => .refl _
  | (name, t) :: rest => by
    unfold Setting.expandMembers
    refine (refines_expand hs happly t).bind fun _ => ?_
    exact (refines_expandMembers hs happly rest).bind fun _ => .refl _

end

end Expand

/-! ## First rules -/

section Meaning

variable {rules rules' : List Rule} (source : Document)

theorem refines_bindingsAt (c : Config) (id : NodeId) (binding : Option Variable) :
    Refines (bindingsAt { c with strict := true } source id binding)
      (bindingsAt c source id binding) := by
  cases binding with
  | none => exact .refl _
  | some v =>
    refine Refines.bind ?_ fun value => .refl _
    unfold variableAt
    rcases (source.select none v.select id).head? with _ | n
    · exact .error _ _
    · exact .refl _

/-- Where the first of some rules is also the first of others, what those mean strictly these mean
as well. -/
theorem refines_meaning (c : Config) (h : ∀ address rule,
      rules.find? (·.pattern.holds address) = some rule →
        rules'.find? (·.pattern.holds address) = some rule)
    (left : Nat) (id : NodeId) :
    Refines (meaning rules { c with strict := true } source left id)
      (meaning rules' c source left id) := by
  induction left generalizing id with
  | zero =>
    simp only [meaning, if_true]
    cases hfind : rules.find? (·.pattern.holds (source.address id)) with
    | none => exact .error _ _
    | some rule => exact .error _ _
  | succ left ih =>
    simp only [meaning, if_true]
    cases hfind : rules.find? (·.pattern.holds (source.address id)) with
    | none => exact .error _ _
    | some rule =>
      rw [h _ _ hfind]
      refine (refines_bindingsAt source c id rule.binding).bind fun bindings => ?_
      exact refines_expand ⟨true, source, id, bindings, _⟩ rfl ih rule.spec

/-- Rules mean what others do if they are found where those are. -/
theorem meaning_congr (c : Config) (h : ∀ address ≠ [],
      rules.find? (·.pattern.holds address) = rules'.find? (·.pattern.holds address))
    (left : Nat) : meaning rules c source left = meaning rules' c source left := by
  induction left with
  | zero =>
    funext id
    simp only [meaning, h _ (source.address_ne_nil id)]
  | succ left ih =>
    funext id
    simp only [meaning, h _ (source.address_ne_nil id), ih]

end Meaning

/-! ## Entries -/

/-- Whatever the entry describes is described by one before it. -/
def Forestalled (before : List (Tree Scalar)) (entry : Tree Scalar) : Prop :=
  ∀ rule, Rule.ofEntry? entry = some rule → ∀ address ≠ [], rule.pattern.holds address = true →
    ∃ other ∈ before.filterMap Rule.ofEntry?, other.pattern.holds address = true

theorem filterMap_of_mapM_eq_some {entries : List (Tree Scalar)} {rules : List Rule}
    (h : entries.mapM Rule.ofEntry? = some rules) :
    entries.filterMap Rule.ofEntry? = rules := by
  induction entries generalizing rules with
  | nil => exact Option.some.inj h
  | cons entry rest ih =>
    rw [List.mapM_cons, Option.bind_eq_bind, Option.bind_eq_some_iff] at h
    obtain ⟨rule, hrule, h⟩ := h
    obtain ⟨others, hothers, h⟩ := Option.bind_eq_some_iff.mp h
    rw [List.filterMap_cons_some hrule, ih hothers]
    exact Option.some.inj h

/-- The rules of a document are those of its entries. -/
theorem filterMap_of_rules?_eq_some {t : Tree Scalar} {rules : List Rule}
    (h : rules? t = some rules) : t.children.filterMap Rule.ofEntry? = rules :=
  filterMap_of_mapM_eq_some h

/-- A forestalled entry is never the one that is found. -/
theorem Forestalled.find?_eq {before after : List (Tree Scalar)} {entry : Tree Scalar}
    (h : Forestalled before entry) (address : List String) (haddress : address ≠ []) :
    ((before ++ entry :: after).filterMap Rule.ofEntry?).find? (·.pattern.holds address) =
      ((before ++ after).filterMap Rule.ofEntry?).find? (·.pattern.holds address) := by
  rw [List.filterMap_append, List.filterMap_append, List.find?_append, List.find?_append,
    List.filterMap_cons]
  cases hentry : Rule.ofEntry? entry with
  | none => rfl
  | some rule =>
    dsimp only
    rw [List.find?_cons]
    split
    · next hholds =>
      obtain ⟨other, hother, hsame⟩ := h rule hentry address haddress hholds
      have hsome : ((before.filterMap Rule.ofEntry?).find?
          (·.pattern.holds address)).isSome = true := List.find?_isSome.mpr ⟨other, hother, hsame⟩
      obtain ⟨first, hfirst⟩ := Option.isSome_iff_exists.mp hsome
      rw [hfirst]
      rfl
    · rfl

theorem accepts_of_children {strict : Bool} {t : Tree Scalar} (hleaf : t.leaf? = none)
    (h : ∀ entry ∈ t.children, acceptsEntry strict entry = true) : accepts strict t = true := by
  rw [accepts, hleaf, Option.isNone_none, Bool.true_and, List.all_eq_true]
  exact h

theorem acceptsEntry_of_accepts {strict : Bool} {t entry : Tree Scalar}
    (h : accepts strict t = true) (hentry : entry ∈ t.children) :
    acceptsEntry strict entry = true :=
  List.all_eq_true.mp (Bool.and_eq_true_iff.mp h).2 entry hentry

end Template

/-! ## Rendering -/

namespace Transformer

open Document (Reachable toTree new ofValue)
open Template (Forestalled)

section Entries

variable {c : Config} {d d' : Document} {t : Transformer}

/-- A document is accepted without strictness if it is strictly. -/
theorem accepts_of_ofDocument_strict (hd : Reachable d)
    (h : ofDocument { c with strict := true } d = .ok t) :
    Template.accepts c.strict d.toTree = true := by
  have hstrict : Template.accepts true d.toTree = true := by
    rw [← isOk_ofDocument hd.rooted.forest { c with strict := true }, h]
    rfl
  rcases hc : c.strict with _ | _
  · rw [← Template.isOk_readAll hd.rooted.forest, isOk_iff] at hstrict ⊢
    obtain ⟨r, hr⟩ := hstrict
    exact ⟨r, Template.refines_readAll d r hr⟩
  · exact hstrict

/-- With further entries behind it, an accepted document is accepted and still renders what it
renders strictly. -/
theorem renderNode_of_children_append {e : Document} {u : Transformer} (hd : Reachable d)
    (he : Reachable e) (hd' : Reachable d')
    (hchildren : d'.toTree.children = d.toTree.children ++ e.toTree.children)
    (hleaf : d'.toTree.leaf? = none) (h : ofDocument { c with strict := true } d = .ok t)
    (hu : ofDocument c e = .ok u) :
    ∃ t', ofDocument c d' = .ok t' ∧ ∀ source, Reachable source → ∀ id out,
      t.renderNode source id = .ok out →
        (t'.renderNode source id).map (Option.map toTree) = .ok (out.map toTree) := by
  have hentries : ∀ entry ∈ d'.toTree.children, Template.acceptsEntry c.strict entry = true := by
    intro entry hentry
    rw [hchildren] at hentry
    rcases List.mem_append.mp hentry with hentry | hentry
    · exact Template.acceptsEntry_of_accepts (accepts_of_ofDocument_strict hd h) hentry
    · refine Template.acceptsEntry_of_accepts ?_ hentry
      rw [← isOk_ofDocument he.rooted.forest, hu]
      rfl
  have haccepts := Template.accepts_of_children hleaf hentries
  rw [← isOk_ofDocument hd'.rooted.forest, isOk_iff] at haccepts
  obtain ⟨t', ht'⟩ := haccepts
  refine ⟨t', ht', fun source hs id out hout => ?_⟩
  obtain ⟨rules, hrules, hmeaning⟩ := renderNode_eq_meaning hd h hs id
  obtain ⟨rules', hrules', hmeaning'⟩ := renderNode_eq_meaning hd' ht' hs id
  obtain rfl := Template.filterMap_of_rules?_eq_some hrules
  obtain rfl := Template.filterMap_of_rules?_eq_some hrules'
  rw [hout] at hmeaning
  rw [hmeaning']
  refine Template.refines_meaning source c ?_ c.maxDepth id _ hmeaning.symm
  intro address rule hrule
  rw [hchildren, List.filterMap_append, List.find?_append, hrule]
  rfl

/-- Without a forestalled entry, an accepted document is accepted and renders the same. -/
theorem renderNode_of_forestalled {before after : List (Tree Scalar)} {entry : Tree Scalar}
    (hd : Reachable d) (hd' : Reachable d')
    (hchildren : d.toTree.children = before ++ entry :: after)
    (hchildren' : d'.toTree.children = before ++ after) (hleaf : d'.toTree.leaf? = none)
    (hentry : Forestalled before entry) (h : ofDocument c d = .ok t) :
    ∃ t', ofDocument c d' = .ok t' ∧ ∀ source, Reachable source → ∀ id,
      (t'.renderNode source id).map (Option.map toTree) =
        (t.renderNode source id).map (Option.map toTree) := by
  have haccepts : Template.accepts c.strict d.toTree = true := by
    rw [← isOk_ofDocument hd.rooted.forest, h]
    rfl
  have hentries : ∀ e ∈ d'.toTree.children, Template.acceptsEntry c.strict e = true := by
    intro e he
    refine Template.acceptsEntry_of_accepts haccepts ?_
    rw [hchildren'] at he
    rw [hchildren]
    exact ((List.sublist_cons_self entry after).append_left before).mem he
  have haccepts' := Template.accepts_of_children hleaf hentries
  rw [← isOk_ofDocument hd'.rooted.forest, isOk_iff] at haccepts'
  obtain ⟨t', ht'⟩ := haccepts'
  refine ⟨t', ht', fun source hs id => ?_⟩
  obtain ⟨rules, hrules, hmeaning⟩ := renderNode_eq_meaning hd h hs id
  obtain ⟨rules', hrules', hmeaning'⟩ := renderNode_eq_meaning hd' ht' hs id
  obtain rfl := Template.filterMap_of_rules?_eq_some hrules
  obtain rfl := Template.filterMap_of_rules?_eq_some hrules'
  rw [hmeaning, hmeaning', hchildren, hchildren']
  exact congrFun (Template.meaning_congr source c
    (fun address haddress => (hentry.find?_eq address haddress).symm) c.maxDepth) id

end Entries

/-- Only first matches matter. Whatever the entries of an array of templates render strictly, they
render with any readable entries behind them, strictly or not. And an entry whose pattern describes
nothing that is not described by one before it can be left out: every rendering stays the same,
failures included. -/
theorem renderNode_firstMatch {d d' : Document} (hd : Reachable d) (hd' : Reachable d') (c : Config)
    {t : Transformer} :
    (∀ entries others e u, d.toTree = .array entries → Reachable e → e.toTree = .array others →
      ofDocument c e = .ok u → d'.toTree = .array (entries ++ others) →
      ofDocument { c with strict := true } d = .ok t →
      ∃ t', ofDocument c d' = .ok t' ∧ ∀ source, Reachable source → ∀ id out,
        t.renderNode source id = .ok out →
          (t'.renderNode source id).map (Option.map toTree) = .ok (out.map toTree)) ∧
    (∀ before entry after, d.toTree.children = before ++ entry :: after →
      d'.toTree.children = before ++ after → d'.toTree.leaf? = none →
      Forestalled before entry → ofDocument c d = .ok t →
      ∃ t', ofDocument c d' = .ok t' ∧ ∀ source, Reachable source → ∀ id,
        (t'.renderNode source id).map (Option.map toTree) =
          (t.renderNode source id).map (Option.map toTree)) := by
  constructor
  · intro entries others e u htree he htree' hu hboth h
    refine renderNode_of_children_append hd he hd' ?_ ?_ h hu
    · rw [htree, htree', hboth]
      rfl
    · rw [hboth]
      rfl
  · intro before entry after hchildren hchildren' hleaf hentry h
    exact renderNode_of_forestalled hd hd' hchildren hchildren' hleaf hentry h

/-- An entry that describes the nodes of a pattern and has a spec for them. -/
def entryFor (pattern : String) (spec : Json.Value) : Json.Value :=
  .object [("$template", .object [("$match", .leaf (.string pattern)), ("$value", spec)])]

/-- An entry for the root, which applies templates to the members, and one for these. -/
def membersEntries : List Json.Value :=
  [entryFor "/" (.object [("$apply-template", .object [("$select", .leaf (.string "*"))])]),
    entryFor "/*" (.leaf (.string "member"))]

/-- An entry for the member `a`. -/
def memberEntry : Json.Value := entryFor "/a" (.leaf .null)

theorem forestalled_memberEntry :
    Forestalled (membersEntries.map (Tree.map Json.Atom.toScalar))
      (memberEntry.map Json.Atom.toScalar) := by
  have hentry : (Template.Rule.ofEntry? (memberEntry.map Json.Atom.toScalar)).map
      Template.Rule.pattern = some ⟨"/a", true, ["a"]⟩ := by decide +kernel
  have hbefore : ((membersEntries.map (Tree.map Json.Atom.toScalar)).filterMap
      Template.Rule.ofEntry?).map Template.Rule.pattern =
        [⟨"/", true, [""]⟩, ⟨"/*", true, ["*"]⟩] := by decide +kernel
  intro rule hrule address haddress hholds
  obtain ⟨other, hother, hpattern⟩ : ∃ other ∈ (membersEntries.map
      (Tree.map Json.Atom.toScalar)).filterMap Template.Rule.ofEntry?,
        other.pattern = ⟨"/*", true, ["*"]⟩ := by
    rw [← List.mem_map, hbefore]
    exact .tail _ (.head _)
  refine ⟨other, hother, ?_⟩
  rw [hpattern]
  -- A star describes whatever key the address begins with.
  rcases address with _ | ⟨key, keys⟩
  · exact absurd rfl haddress
  · rfl

theorem renderNode_firstMatch_memberEntry :
    let source := ofValue (.object [("a", .leaf .null)])
    let both := membersEntries ++ [memberEntry]
    ∃ t out, ofDocument ⟨true, 2⟩ (ofValue (.array membersEntries)) = .ok t ∧
      t.renderNode source source.root = .ok (some out) ∧
      (∃ t', ofDocument ⟨false, 2⟩ (ofValue (.array both)) = .ok t' ∧
        (t'.renderNode source source.root).map (Option.map toTree) = .ok (some out.toTree)) ∧
      ∃ u u', ofDocument ⟨false, 2⟩ (ofValue (.array both)) = .ok u ∧
        ofDocument ⟨false, 2⟩ (ofValue (.array membersEntries)) = .ok u' ∧
        (u'.renderNode source source.root).map (Option.map toTree) =
          (u.renderNode source source.root).map (Option.map toTree) := by
  intro source both
  have hsource : (Tree.object [("a", .leaf Json.Atom.null)]).NamesNodup := by
    simp [Tree.NamesNodup, Tree.NamesNodupMembers]
  have hnames : (Tree.array membersEntries).NamesNodup := by
    simp [membersEntries, entryFor, Tree.NamesNodup, Tree.NamesNodupItems, Tree.NamesNodupMembers]
  have hentry : (Tree.array [memberEntry]).NamesNodup := by
    simp [memberEntry, entryFor, Tree.NamesNodup, Tree.NamesNodupItems, Tree.NamesNodupMembers]
  have hboth : (Tree.array both).NamesNodup := by
    simp [both, membersEntries, memberEntry, entryFor, Tree.NamesNodup, Tree.NamesNodupItems,
      Tree.NamesNodupMembers]
  have htree : ∀ {v : Json.Value}, v.NamesNodup →
      (ofValue v).toTree = v.map Json.Atom.toScalar :=
    fun h => Document.toTree_ofTree (Tree.namesNodup_map _ h)
  have hok : (do
      let t ← ofDocument ⟨true, 2⟩ (ofValue (.array membersEntries))
      let u ← ofDocument ⟨false, 2⟩ (ofValue (.array both))
      let _ ← ofDocument ⟨false, 2⟩ (ofValue (.array [memberEntry]))
      let out ← t.renderNode source source.root
      return out.isSome) = .ok true := Template.eq_ok_of_toOption_eq_some (by decide +kernel)
  obtain ⟨t, ht, hok⟩ := Template.exists_of_bind_eq_ok hok
  obtain ⟨u, hu, hok⟩ := Template.exists_of_bind_eq_ok hok
  obtain ⟨e, he, hok⟩ := Template.exists_of_bind_eq_ok hok
  obtain ⟨out, hout, hok⟩ := Template.exists_of_bind_eq_ok hok
  obtain ⟨out, rfl⟩ := Option.isSome_iff_exists.mp (Except.ok.inj hok)
  obtain ⟨t', ht', hmore⟩ := (renderNode_firstMatch (.ofValue hnames) (.ofValue hboth)
    ⟨false, 2⟩).1 _ _ _ e (htree hnames) (.ofValue hentry) (htree hentry) he (htree hboth) ht
  obtain ⟨u', hu', hless⟩ := (renderNode_firstMatch (.ofValue hboth) (.ofValue hnames)
    ⟨false, 2⟩).2 _ _ [] (by rw [htree hboth]; rfl) (by rw [htree hnames]; rfl)
      (by rw [htree hnames]; rfl) forestalled_memberEntry hu
  exact ⟨t, out, ht, hout, ⟨t', ht', hmore source (.ofValue hsource) _ _ hout⟩, u, u', hu, hu',
    hless source (.ofValue hsource) _⟩

end Transformer

end Reshape
