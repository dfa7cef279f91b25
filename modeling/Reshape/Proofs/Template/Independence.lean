import Reshape.Proofs.Template.Depth
import Reshape.Proofs.Template.Simulation

/-!
# Applications do not depend on who makes them

What templates make of a node inside of others is what they make of it on their own, with as many
applications left. Neither the output that there is already, nor the variables, the spec or the
selection of the template that makes the call leave a trace in it.

## Main definitions

* `Transformer.contribution`: what templates make of a node after an output, as a tree.
* `Template.Error.withLimit`: a failure that names another limit of depth.

## Main statements

* `Transformer.Reaches.rooted`: the outputs of a rendering stay forests.
* `Transformer.contribution_eq_meaning`.
* `Transformer.contribution_of_reaches`.
-/

namespace Reshape

/-- The failure, naming another limit if depth was wanting. -/
def Template.Error.withLimit (limit : Nat) : Template.Error → Template.Error
  | .tooDeep _ => .tooDeep limit
  | e => e

theorem Template.Error.withLimit_of_ne {limit : Nat} {e : Template.Error}
    (h : ∀ limit, e ≠ .tooDeep limit) : e.withLimit limit = e := by
  cases e with
  | tooDeep limit => exact absurd rfl (h limit)
  | _ => rfl

/-! ## Outputs on the way -/

namespace Document

variable {d d' : Document} {top : NodeId}

/-- Filling an array leaves the root on top. -/
theorem LaidItems.rooted {done : List NodeId} {ts : List (Tree Scalar)}
    (h : LaidItems d top done d' ts) (hr : d.Rooted) : d'.Rooted where
  forest := h.forest
  root_lt := h.root_eq ▸ Nat.lt_of_lt_of_le hr.root_lt h.size_le
  parent_root := by
    rw [h.root_eq]
    by_cases htop : d.root = top
    · rw [htop, h.parent_eq]
    · rw [parent, h.record_eq d.root hr.root_lt htop]
      exact hr.parent_root

/-- Filling an object leaves the root on top. -/
theorem LaidMembers.rooted {done : Members NodeId} {ms : List (String × Tree Scalar)}
    (h : LaidMembers d top done d' ms) (hr : d.Rooted) : d'.Rooted where
  forest := h.forest
  root_lt := h.root_eq ▸ Nat.lt_of_lt_of_le hr.root_lt h.size_le
  parent_root := by
    rw [h.root_eq]
    by_cases htop : d.root = top
    · rw [htop, h.parent_eq]
    · rw [parent, h.record_eq d.root hr.root_lt htop (by simp [hr.parent_root])]
      exact hr.parent_root

end Document

namespace Transformer

open Document
open Template (Error Outcome Ready Setting Told)

/-- Steps that agree and of which the first succeeds have related results. -/
theorem exists_of_agrees_ok {ε α β : Type} {p : α → β → Prop} {y : Except ε β} {a : α}
    (h : Agrees p (.ok a) y) : ∃ b, p a b := by
  cases h with
  | ok hab => exact ⟨_, hab⟩

section Outputs

variable {t : Transformer} {s : Scope} {d source out out' : Document} {apply make : Maker}
  {mean : NodeId → Outcome} {left fuel k : Nat} {spec id m : NodeId}

theorem rooted_of_pushEach {ids : List NodeId} (hmake : Realizes make mean ids) (hr : out.Rooted)
    (h : pushEach make (out.alloc (.array [])).1 out.nodes.size ids = .ok out') : out'.Rooted := by
  have hc : (out.alloc (.array [])).1.content out.nodes.size = .array [] := by
    rw [content_alloc, if_pos rfl]
  have hp : (out.alloc (.array [])).1.parent out.nodes.size = none := by
    rw [parent_alloc, parent_of_size_le (Nat.le_refl _)]
  have hagrees := agrees_pushEach hmake (hr.alloc rfl) hc hp
  rw [h] at hagrees
  obtain ⟨ts, hlaid⟩ := exists_of_agrees_ok hagrees
  exact hlaid.rooted (hr.alloc rfl)

theorem rooted_of_insertEach {ms : Members NodeId} (hmake : Realizes make mean (ms.map Prod.snd))
    (hr : out.Rooted)
    (h : insertEach make (out.alloc (.object [])).1 out.nodes.size ms = .ok out') :
    out'.Rooted := by
  have hc : (out.alloc (.object [])).1.content out.nodes.size = .object [] := by
    rw [content_alloc, if_pos rfl]
  have hp : (out.alloc (.object [])).1.parent out.nodes.size = none := by
    rw [parent_alloc, parent_of_size_le (Nat.le_refl _)]
  have hagrees := agrees_insertEach hmake (hr.alloc rfl) hc hp
  rw [h] at hagrees
  obtain ⟨ns, hlaid⟩ := exists_of_agrees_ok hagrees
  exact hlaid.rooted (hr.alloc rfl)

/-- A spec has fewer levels left for its parts. -/
theorem level_of_mem_children (hd : d.Forest) {c : NodeId} (hc : c ∈ d.children spec)
    (h : d.nodes.size ≤ fuel + 1 + (d.ancestors spec).length) :
    d.nodes.size ≤ fuel + (d.ancestors c).length := by
  have := hd.length_ancestors_of_mem_children hc
  omega

section Specs

variable (hd : d.Forest) (ht : Told d t.selects) (hs : s.source.Forest)
  (happly : ∀ ids, Realizes apply mean ids)
include hd ht hs happly

theorem realizes_generate {ids : List NodeId} (hready : ∀ i ∈ ids, Ready d t.selects fuel i)
    (hlevel : ∀ i ∈ ids, d.nodes.size ≤ fuel + (d.ancestors i).length) :
    Realizes (t.generate s d apply fuel)
      (fun i => (s.setting t.config mean).expand (d.tree i)) ids := fun i hi _ hr =>
  agrees_generate mean hd ht hs happly fuel (hready i hi) (hlevel i hi) hr

/-- The output at every call of a spec is a forest. -/
theorem Asks.rooted (h : t.Asks s d apply fuel out spec out' m)
    (hready : Ready d t.selects fuel spec)
    (hfuel : d.nodes.size ≤ fuel + (d.ancestors spec).length) (hr : out.Rooted) :
    out'.Rooted := by
  induction h with
  | single => exact hr
  | element _ _ _ _ hbefore => exact rooted_of_pushEach (happly _) hr hbefore
  | @item fuel out out₁ out' spec item m before after hc hbefore _ ih =>
    simp only [Ready, hc] at hready
    have hlevel : ∀ i ∈ before ++ item :: after,
        d.nodes.size ≤ fuel + (d.ancestors i).length := fun i hi =>
      level_of_mem_children hd (by rw [children, hc]; exact hi) hfuel
    have hmake := realizes_generate hd ht hs happly
      (fun i hi => hready i (List.mem_append_left (item :: after) hi))
      (fun i hi => hlevel i (List.mem_append_left (item :: after) hi))
    exact ih (hready item (by simp)) (hlevel item (by simp)) (rooted_of_pushEach hmake hr hbefore)
  | @member fuel out out₁ out' spec id m name before after hc hplain hbefore _ ih =>
    simp only [Ready, hc, hplain.noApply, hplain.noValue, hplain.noCopy] at hready
    have hlevel : ∀ x ∈ before ++ (name, id) :: after,
        d.nodes.size ≤ fuel + (d.ancestors x.2).length := fun x hx =>
      level_of_mem_children hd (by rw [children, hc]; exact List.mem_map_of_mem hx) hfuel
    have hmem : ∀ i ∈ before.map Prod.snd, ∃ x ∈ before ++ (name, id) :: after, x.2 = i := by
      intro i hi
      obtain ⟨x, hx, rfl⟩ := List.mem_map.mp hi
      exact ⟨x, List.mem_append_left _ hx, rfl⟩
    have hready' : ∀ i ∈ before.map Prod.snd, Ready d t.selects fuel i := fun i hi => by
      obtain ⟨x, hx, rfl⟩ := hmem i hi
      exact hready x hx
    have hlevel' : ∀ i ∈ before.map Prod.snd,
        d.nodes.size ≤ fuel + (d.ancestors i).length := fun i hi => by
      obtain ⟨x, hx, rfl⟩ := hmem i hi
      exact hlevel x hx
    have hmake := realizes_generate hd ht hs happly hready' hlevel'
    exact ih (hready (name, id) (by simp)) (hlevel (name, id) (by simp))
      (rooted_of_insertEach hmake hr hbefore)

end Specs

theorem Calls.rooted (h : t.Faithful d) (hs : source.Forest)
    (hcalls : t.Calls source left out id out' m) (hr : out.Rooted) : out'.Rooted := by
  obtain ⟨template, bindings, htemplate, -, hasks⟩ := hcalls
  have hmem : template ∈ t.templates := List.mem_of_find?_eq_some htemplate
  have hready : template.IsReady t.selects := h.prepared template hmem
  simp only [Template.IsReady, h.document_eq template hmem] at hready hasks
  exact hasks.rooted h.forest h.told hs (realizes_applyTo h hs left) hready
    (Nat.le_add_right _ _) hr

/-- The output at every call of a rendering is a forest. -/
theorem Reaches.rooted (h : t.Faithful d) (hs : source.Forest)
    (hreaches : t.Reaches source left out id k out' m) (hr : out.Rooted) : out'.Rooted := by
  induction hreaches with
  | here => exact hr
  | inside hcalls _ ih => exact ih (hcalls.rooted h hs hr)

end Outputs

/-! ## Contributions -/

/-- The tree of what was made, if there is content. -/
def Content.tree? (r : Content) : Option (Tree Scalar) := r.2.map r.1.tree

/-- What templates make of a node after the output `out`, with `left` applications left, as a tree,
as no content or as a failure. -/
def contribution (t : Transformer) (source : Document) (left : Nat) (out : Document)
    (id : NodeId) : Outcome :=
  (t.applyTo source left out id).map Content.tree?

section Contributions

variable {t : Transformer} {d source out : Document} {left : Nat} {id : NodeId}

theorem Holds.tree?_eq {r : Content} {t : Option (Tree Scalar)} (h : Holds out r t) :
    r.tree? = t := by
  cases h with
  | none => rfl
  | some hl =>
    exact congrArg Option.some (hl.forest.tree_eq hl.id_lt (hl.shows _ fun _ _ _ => rfl))

/-- A contribution is what is meant, whatever the output is that it comes after. -/
theorem contribution_eq_meaning (h : t.Faithful d) (hs : source.Forest) (hr : out.Rooted) :
    t.contribution source left out id = Template.meaning t.rules t.config source left id := by
  have hagrees := realizes_applyTo h hs left [id] id List.mem_cons_self out hr
  rw [contribution]
  generalize t.applyTo source left out id = made at hagrees ⊢
  generalize Template.meaning t.rules t.config source left id = meant at hagrees ⊢
  cases hagrees with
  | error e => rfl
  | ok hholds => exact congrArg Except.ok hholds.tree?_eq

theorem Faithful.withOptions (h : t.Faithful d) (c : Config) : (t.withOptions c).Faithful d :=
  ⟨h.forest, h.prepared, h.told, h.document_eq⟩

/-- A rendering of its own, with the limit that is left, makes what is contributed. -/
theorem renderNode_eq_contribution (h : t.Faithful d) (hs : source.Forest) (hr : out.Rooted) :
    ((t.withOptions { t.config with maxDepth := left }).renderNode source id).map
        (Option.map toTree) =
      (t.contribution source left out id).mapError (Error.withLimit left) := by
  have htracks : Tracks (fun _ => False) (Error.withLimit left) (t.applyTo source left out id) _ :=
    t.tracks_applyTo (c := { t.config with maxDepth := left }) (fun e => Error.withLimit_of_ne)
      (.inl rfl) source (Nat.le_refl left) (.inr ⟨rfl, rfl⟩) out id
  have hlimit := h.withOptions { t.config with maxDepth := left }
  calc ((t.withOptions { t.config with maxDepth := left }).renderNode source id).map
        (Option.map toTree)
    _ = Template.meaning _ _ source left id := renderNode_eq hlimit hs id
    _ = (t.withOptions { t.config with maxDepth := left }).contribution source left out id :=
        (contribution_eq_meaning hlimit hs hr).symm
    _ = ((t.applyTo source left out id).mapError (Error.withLimit left)).map Content.tree? :=
        congrArg _ (tracks_false_iff.mp htracks)
    _ = (t.contribution source left out id).mapError (Error.withLimit left) := by
        rw [contribution]
        rcases t.applyTo source left out id with e | r <;> rfl

/-- What is contributed does not depend on the output, nor on how many applications are left unless
that are too few. -/
theorem contribution_eq_of_le (h : t.Faithful d) (hs : source.Forest) (hr : out.Rooted)
    {out' : Document} (hr' : out'.Rooted) {left' : Nat} (hle : left ≤ left')
    (hdeep : left' = left ∨
      ∀ limit, t.contribution source left out id ≠ .error (.tooDeep limit)) :
    t.contribution source left' out' id = t.contribution source left out id := by
  have hout : t.contribution source left' out' id = t.contribution source left' out id :=
    (contribution_eq_meaning h hs hr').trans (contribution_eq_meaning h hs hr).symm
  rcases hdeep with rfl | hdeep
  · exact hout
  · rw [hout]
    have htracks : Tracks Error.WantsDepth (fun e => e) (t.applyTo source left out id)
        (t.applyTo source left' out id) :=
      t.tracks_applyTo (c := t.config) (fun _ _ => rfl) (.inl rfl) source hle (.inl ⟨_, rfl⟩) out id
    have hshallow : Shallow (t.applyTo source left out id) := fun limit hx =>
      hdeep limit (by rw [contribution, hx]; rfl)
    rw [contribution, contribution, htracks.eq_of_shallow hshallow]

end Contributions

/-- What templates contribute inside of others does not depend on who applies them: a call that a
rendering comes to inside of `k` applications contributes what a rendering of its own makes with a
limit that is lower by `k`, up to the limit that a failure names. So two calls for a node contribute
the same to any two renderings of the source, unless the one inside of more applications wants
depth. -/
theorem contribution_of_reaches {c : Config} {d : Document} {t : Transformer} (hd : Reachable d)
    (h : ofDocument c d = .ok t) {source : Document} (hs : Reachable source) {n m : NodeId}
    {k : Nat} {out : Document}
    (hreaches : t.Reaches source c.maxDepth (.new (.value .null)) n k out m) :
    (∃ t', ofDocument { c with maxDepth := c.maxDepth - k } d = .ok t' ∧
      (t'.renderNode source m).map (Option.map toTree) =
        (t.contribution source (c.maxDepth - k) out m).mapError
          (Error.withLimit (c.maxDepth - k))) ∧
    ∀ (n' : NodeId) (k' : Nat) (out' : Document),
      t.Reaches source c.maxDepth (.new (.value .null)) n' k' out' m → k' ≤ k →
      (k' = k ∨ ∀ limit, t.contribution source (c.maxDepth - k) out m ≠ .error (.tooDeep limit)) →
      t.contribution source (c.maxDepth - k') out' m =
        t.contribution source (c.maxDepth - k) out m := by
  obtain ⟨-, hconfig, hfaithful⟩ := faithful_of_ofDocument hd.rooted.forest h
  have hsource := hs.rooted.forest
  have hnew : (new (.value .null)).Rooted := rooted_new rfl
  have hr := hreaches.rooted hfaithful hsource hnew
  constructor
  · refine ⟨_, ofDocument_withOptions (m := c.maxDepth - k) h, ?_⟩
    rw [← hconfig]
    exact renderNode_eq_contribution hfaithful hsource hr
  · intro n' k' out' hreaches' hle hdeep
    refine contribution_eq_of_le hfaithful hsource hr (hreaches'.rooted hfaithful hsource hnew)
      (Nat.sub_le_sub_left hle _) (hdeep.imp_left ?_)
    rintro rfl
    rfl

/-- A template for the root, which binds the member `a` and applies templates to the equal elements
of the member `b`, and one for these, which asks for a variable of that name and finds none. -/
def bindingOutside : Json.Value :=
  .array [
    .object [("$template", .object [("$match", .leaf (.string "/")),
      ("$variable", .object [("$name", .leaf (.string "v")), ("$select", .leaf (.string "a"))]),
      ("$value", .object [("$apply-template",
        .object [("$select", .leaf (.string "b/*[. eq $v]"))])])])],
    .object [("$template", .object [("$match", .leaf (.string "/b/*")),
      ("$value", .array [.leaf (.string "x"),
        .object [("$copy-of", .object [("$select", .leaf (.string ".[. eq $v]"))])]])])]]

theorem contribution_of_reaches_bindingOutside :
    let source := ofValue (.object [("a", .leaf .null), ("b", .array [.leaf .null, .leaf .null])])
    ∃ t t' out, ofDocument ⟨false, 2⟩ (ofValue bindingOutside) = .ok t ∧
      t.Reaches source 2 (.new (.value .null)) source.root 1 out 2 ∧
      ofDocument ⟨false, 1⟩ (ofValue bindingOutside) = .ok t' ∧
      (t'.renderNode source 2).map (Option.map toTree) =
        (t.contribution source 1 out 2).mapError (Error.withLimit 1) := by
  intro source
  have hnames : bindingOutside.NamesNodup := by
    simp [bindingOutside, Tree.NamesNodup, Tree.NamesNodupItems, Tree.NamesNodupMembers]
  have hsource : (Tree.object [("a", .leaf Json.Atom.null),
      ("b", .array [.leaf .null, .leaf .null])]).NamesNodup := by
    simp [Tree.NamesNodup, Tree.NamesNodupItems, Tree.NamesNodupMembers]
  -- The call for the second element comes after the content of the first.
  have hok : (do
      let t ← ofDocument ⟨false, 2⟩ (ofValue bindingOutside)
      let template ← (t.find? (source.address source.root)).elim (.error .options) .ok
      let bindings ← t.bind source source.root template.binding
      let ids ← t.select ⟨source, source.root, bindings⟩ template.value.document 5
      let _ ← pushEach (t.applyTo source 1) ((new (.value .null)).alloc (.array [])).1 1 [1]
      return (ids, template.value.document.content template.value.id,
        template.value.document.nodes.size, asksArray template.value.document 5)) =
      .ok ([1, 2], .object [("$apply-template", 5)], 18, true) :=
    Template.eq_ok_of_toOption_eq_some (by decide +kernel)
  obtain ⟨t, ht, hok⟩ := Template.exists_of_bind_eq_ok hok
  obtain ⟨template, htemplate, hok⟩ := Template.exists_of_bind_eq_ok hok
  obtain ⟨bindings, hbind, hok⟩ := Template.exists_of_bind_eq_ok hok
  obtain ⟨ids, hselect, hok⟩ := Template.exists_of_bind_eq_ok hok
  obtain ⟨out, hout, hok⟩ := Template.exists_of_bind_eq_ok hok
  have hok := Except.ok.inj hok
  simp only [Prod.mk.injEq] at hok
  obtain ⟨rfl, hcontent, hsize, hflag⟩ := hok
  have htemplate : t.find? (source.address source.root) = some template := by
    rcases hfind : t.find? (source.address source.root) with _ | found
    · rw [hfind] at htemplate
      cases htemplate
    · rw [hfind] at htemplate
      cases htemplate
      rfl
  have hcalls : t.Calls source 1 (.new (.value .null)) source.root out 2 := by
    refine ⟨template, bindings, htemplate, hbind, ?_⟩
    rw [hsize]
    exact .element hcontent rfl hselect (.inl hflag) hout
  have hreaches : t.Reaches source 2 (.new (.value .null)) source.root 1 out 2 :=
    .inside hcalls .here
  obtain ⟨⟨t', ht', hrender⟩, -⟩ :=
    contribution_of_reaches (.ofValue hnames) ht (.ofValue hsource) hreaches
  exact ⟨t, t', out, ht, hreaches, ht', hrender⟩

end Transformer

end Reshape
