import Reshape.Proofs.Template.Calls
import Reshape.Proofs.Template.Rules

/-!
# The limit of depth

The limit only cuts renderings off, and it cuts off those whose applications nest deeper. Below the
limit there is nothing else that ends a rendering: the levels of a spec are bounded by the arena of
the template document, and no spec has more.

## Main statements

* `Transformer.generate_eq_of_size_le`: the bound on the levels of a spec does not matter.
* `Transformer.renderNode_limit`.
-/

namespace Reshape.Transformer

open Document
open Template (Error)

/-! ## Levels of a spec -/

section Levels

variable {t : Transformer} {s : Scope} {d : Document} {apply : Maker}

/-- A level that no branch of the spec has changes nothing. -/
theorem generate_succ_eq (hd : d.Forest) {fuel : Nat} {spec : NodeId}
    (h : d.nodes.size ≤ fuel + (d.ancestors spec).length) (out : Document) :
    t.generate s d apply (fuel + 1) out spec = t.generate s d apply fuel out spec := by
  induction fuel generalizing spec out with
  | zero =>
    -- Only a number that is not in use has that many ancestors.
    have hspec : d.nodes.size ≤ spec := by
      refine Nat.le_of_not_lt fun hlt => ?_
      have := hd.length_ancestors_lt hlt
      omega
    simp only [generate, content_of_size_le hspec]
  | succ fuel ih =>
    have hchild : ∀ c ∈ d.children spec, ∀ out,
        t.generate s d apply (fuel + 1) out c = t.generate s d apply fuel out c := by
      intro c hc out
      have := hd.length_ancestors_of_mem_children hc
      exact ih (by omega) out
    unfold children at hchild
    unfold generate
    rcases hc : d.content spec with v | items | ms
    · rfl
    · rw [hc] at hchild
      exact makeArray_congr fun _ c _ out hitems _ =>
        hchild c (by simp [hitems, Content.children]) out
    · rw [hc] at hchild
      have hobject : makeObject (t.generate s d apply (fuel + 1)) out ms =
          makeObject (t.generate s d apply fuel) out ms :=
        makeObject_congr fun _ _ c _ out hms _ => hchild c (by simp [hms, Content.children]) out
      simp only [hobject]

/-- However many levels a spec is followed down, if they are as many as the nodes of the document,
the same is made of it. -/
theorem generate_eq_of_size_le (hd : d.Forest) {fuel : Nat} (h : d.nodes.size ≤ fuel) :
    t.generate s d apply fuel = t.generate s d apply d.nodes.size := by
  induction fuel, h using Nat.le_induction with
  | base => rfl
  | succ fuel hle ih =>
    rw [← ih]
    funext out spec
    exact generate_succ_eq hd (by omega) out

end Levels

/-! ## The limit -/

section Limit

variable {c : Config} {d : Document} {t : Transformer} {source : Document} {id : NodeId}

/-- A template document that is accepted is accepted with every limit. -/
theorem ofDocument_withOptions {m : Nat} (h : ofDocument c d = .ok t) :
    ofDocument { c with maxDepth := m } d = .ok (t.withOptions { c with maxDepth := m }) := by
  obtain ⟨⟨ts, selects⟩, hread, h⟩ := Template.exists_of_bind_eq_ok h
  cases h
  rw [ofDocument, hread]
  rfl

/-- A rendering that does not want depth is the same with a higher limit. -/
theorem renderNode_withOptions {m : Nat} (hm : t.config.maxDepth ≤ m)
    (h : Shallow (t.renderNode source id)) :
    (t.withOptions { t.config with maxDepth := m }).renderNode source id =
      t.renderNode source id := by
  have htracks : Tracks Error.WantsDepth (fun e => e) (t.renderNode source id) _ :=
    t.tracks_renderNode (c := { t.config with maxDepth := m }) (fun _ _ => rfl) (.inl rfl) hm
      (.inl ⟨_, rfl⟩) source id
  exact htracks.eq_of_shallow h

theorem renderNode_eq_tooDeep_iff {limit : Nat} :
    t.renderNode source id = .error (.tooDeep limit) ↔ limit = t.config.maxDepth ∧
      ∃ out m, t.Reaches source t.config.maxDepth (.new (.value .null)) id t.config.maxDepth out m ∧
        (t.find? (source.address m)).isSome = true := by
  rw [← applyTo_eq_tooDeep_iff, renderNode_eq_bind]
  constructor
  · intro h
    rcases hr : t.applyTo source t.config.maxDepth (.new (.value .null)) id with e | r
    · rw [hr] at h
      cases h
      rfl
    · rw [hr] at h
      exact absurd h (shallow_finish r limit)
  · intro h
    rw [h]
    rfl

end Limit

/-- The limit of depth only cuts renderings off, at applications inside each other. No bound on the
levels of a spec is ever what ends a rendering; with a higher limit, what is rendered without want
of depth is rendered as the same; and depth is wanting exactly if, with a limit of `m`, the
rendering comes to an application of a template inside `m` others, so that there is a chain of
`m + 1` nodes with a template, each of which applies templates to the next. -/
theorem renderNode_limit {strict : Bool} {m : Nat} {d : Document} {t : Transformer}
    (hd : Reachable d) (h : ofDocument ⟨strict, m⟩ d = .ok t) (source : Document) (id : NodeId) :
    (∀ (s : Scope) (apply : Maker) (fuel : Nat), d.nodes.size ≤ fuel →
      t.generate s d apply fuel = t.generate s d apply d.nodes.size) ∧
    (∀ m', m ≤ m' → ∃ t', ofDocument ⟨strict, m'⟩ d = .ok t' ∧
      ((∀ limit, t.renderNode source id ≠ .error (.tooDeep limit)) →
        t'.renderNode source id = t.renderNode source id)) ∧
    (∀ limit, t.renderNode source id = .error (.tooDeep limit) ↔ limit = m ∧
      ∃ out n, t.Reaches source m (.new (.value .null)) id m out n ∧
        (t.find? (source.address n)).isSome = true) ∧
    (∀ limit, t.renderNode source id = .error (.tooDeep limit) →
      ∃ ns : List NodeId, ns.length = m ∧ (id :: ns).IsChain (t.Applies source) ∧
        ∀ n ∈ id :: ns, (t.find? (source.address n)).isSome = true) := by
  obtain ⟨hconfig, -⟩ := prepared_of_ofDocument h
  have hiff : ∀ limit, t.renderNode source id = .error (.tooDeep limit) ↔ limit = m ∧
      ∃ out n, t.Reaches source m (.new (.value .null)) id m out n ∧
        (t.find? (source.address n)).isSome = true := by
    intro limit
    rw [renderNode_eq_tooDeep_iff, hconfig]
  refine ⟨fun s apply fuel => generate_eq_of_size_le hd.rooted.forest, ?_, hiff, ?_⟩
  · intro m' hm
    refine ⟨_, ofDocument_withOptions (m := m') h, fun hshallow => ?_⟩
    have hsame := renderNode_withOptions (m := m') (by rwa [hconfig]) hshallow
    rwa [hconfig] at hsame
  · intro limit hdeep
    obtain ⟨-, out, n, hreaches, hn⟩ := (hiff limit).mp hdeep
    obtain ⟨ns, hlength, hchain, hlast⟩ := hreaches.exists_isChain
    refine ⟨ns, hlength, hchain, isSome_find?_of_isChain hchain ?_⟩
    rw [hlast]
    rintro _ ⟨⟩
    exact hn

/-- A template for every node, which applies templates to the node itself. -/
def selfApplying : Json.Value :=
  .array [.object [("$template", .object [("$match", .leaf (.string "")),
    ("$value", .object [("again", .object [("$apply-template",
      .object [("$select", .leaf (.string "."))])])])])]]

theorem renderNode_limit_selfApplying :
    ∃ t, ofDocument ⟨false, 2⟩ (ofValue selfApplying) = .ok t ∧
      t.renderNode (new (.object [])) 0 = .error (.tooDeep 2) ∧
      ∃ ns : List NodeId, ns.length = 2 ∧ (0 :: ns).IsChain (t.Applies (new (.object []))) := by
  have hnames : selfApplying.NamesNodup := by
    simp [selfApplying, Tree.NamesNodup, Tree.NamesNodupItems, Tree.NamesNodupMembers]
  have hok : (do
      let t ← ofDocument ⟨false, 2⟩ (ofValue selfApplying)
      return ((t.renderNode (new (.object [])) 0).map Option.isSome).mapError Error.limit?) =
        .ok (.error (some 2)) := Template.eq_ok_of_toOption_eq_some (by decide +kernel)
  obtain ⟨t, ht, hdeep⟩ := Template.exists_of_bind_eq_ok hok
  have hdeep : t.renderNode (new (.object [])) 0 = .error (.tooDeep 2) := by
    have hdeep := Except.ok.inj hdeep
    rcases hr : t.renderNode (new (.object [])) 0 with e | out
    · rw [hr] at hdeep
      rw [Error.eq_tooDeep_of_limit?_eq_some (Except.error.inj hdeep)]
    · rw [hr] at hdeep
      cases hdeep
  obtain ⟨-, -, -, hchain⟩ := renderNode_limit (.ofValue hnames) ht (new (.object [])) 0
  obtain ⟨ns, hlength, hchain, -⟩ := hchain 2 hdeep
  exact ⟨t, ht, hdeep, ns, hlength, hchain⟩

end Reshape.Transformer
