import Reshape.Proofs.Template.Output
import Reshape.Proofs.Template.Rules

/-!
# Rendering does what templates mean

Rendering grows an arena of output nodes, and `Template.meaning` is a function from trees to trees.
Step by step the two agree: they fail alike, or there is no content in both, or the node that was
made is a new one on top of the tree that is meant. The output stays a forest throughout, whatever
was made in it and dropped.

## Main definitions

* `Agrees`: steps that fail alike or have related results.
* `Transformer.Holds`: the content that a tree stands for.
* `Transformer.Realizes`: a maker that does what is meant.

## Main statements

* `Transformer.agrees_makeArray`, `Transformer.agrees_makeObject`: containers.
* `Transformer.agrees_generate`, `Transformer.realizes_applyTo`: specs and applications.
* `Transformer.renderNode_eq_meaning`.
-/

namespace Reshape

/-! ## Steps that agree -/

/-- The steps fail alike, or `p` relates their results. -/
inductive Agrees {ε α β : Type} (p : α → β → Prop) : Except ε α → Except ε β → Prop
  | ok {a : α} {b : β} : p a b → Agrees p (.ok a) (.ok b)
  | error (e : ε) : Agrees p (.error e) (.error e)

namespace Agrees

variable {ε α β α' β' : Type} {p : α → β → Prop} {q : α' → β' → Prop} {x : Except ε α}
  {y : Except ε β}

theorem bind (h : Agrees p x y) {f : α → Except ε α'} {g : β → Except ε β'}
    (hfg : ∀ a b, p a b → Agrees q (f a) (g b)) : Agrees q (x >>= f) (y >>= g) := by
  cases h with
  | ok hab => exact hfg _ _ hab
  | error e => exact .error e

/-- Results are related as results. -/
theorem result (h : Agrees p x y) : Agrees (fun a b => p a b ∧ y = .ok b) x y := by
  cases h with
  | ok hab => exact .ok ⟨hab, rfl⟩
  | error e => exact .error e

/-- The second step may go on to change its result. -/
theorem thenOk (h : Agrees p x y) {r : α → β' → Prop} {g : β → β'}
    (hg : ∀ a b, p a b → r a (g b)) : Agrees r x (y >>= fun b => .ok (g b)) := by
  cases h with
  | ok hab => exact .ok (hg _ _ hab)
  | error e => exact .error e

end Agrees

/-! ## Containers that are being filled -/

namespace Document

variable {d d₁ : Document} {id : NodeId} {t : Tree Scalar}

/-- What was laid out on top is not the root. -/
theorem Laid.ne_root (hl : Laid [] d d₁ id t) (hr : d.Rooted) : id ≠ d₁.root := by
  rw [hl.ext.root_eq]
  exact Nat.ne_of_gt (Nat.lt_of_lt_of_le hr.root_lt hl.le_id)

/-- An array on top takes what was laid out as its last element. -/
theorem Laid.pushElement {array : NodeId} {done : List NodeId} (hl : Laid [] d d₁ id t)
    (hr : d.Rooted) (hc : d.content array = .array done) (hp : d.parent array = none) :
    ∃ d₂, d₁.pushElement array id = .ok d₂ ∧ d₂ = d₁.linkElement array done done.length id ∧
      d₂.Rooted ∧ d₂.content array = .array (done ++ [id]) ∧ d₂.parent array = none := by
  have hlt := lt_size_of_content_array hc
  have hc₁ := (hl.ext.content_eq hlt).trans hc
  have hp₁ := (hl.ext.parent_eq hlt).trans hp
  have hne : id ≠ array := Nat.ne_of_gt (Nat.lt_of_lt_of_le hlt hl.le_id)
  have hattach := attachable_of_parent_eq_none hp₁ hl.parent_id (hl.ne_root hr) hne
  have hpush : d₁.pushElement array id = .ok (d₁.linkElement array done done.length id) :=
    pushElement_eq_ok_iff.mpr ⟨done, hc₁, hattach, rfl⟩
  refine ⟨_, hpush, rfl, (hr.extend hl.ext hl.forest).pushElement hl.id_lt hpush, ?_, ?_⟩
  · rw [content_linkElement (lt_size_of_content_array hc₁), if_pos rfl,
      List.insertIdx_length_self]
  · rw [parent_linkElement hl.id_lt, if_neg (Ne.symm hne), hp₁]

/-- An object on top takes what was laid out as a member. -/
theorem Laid.insertField {object : NodeId} {done : Members NodeId} (hl : Laid [] d d₁ id t)
    (hr : d.Rooted) (hc : d.content object = .object done) (hp : d.parent object = none)
    (name : String) :
    ∃ r, d₁.insertField object name id = .ok r ∧ r.1 = d₁.linkMember object done name id ∧
      r.1.Rooted ∧ r.1.content object = .object (done.put name id) ∧
      r.1.parent object = none := by
  have hlt := lt_size_of_content_object hc
  have hc₁ := (hl.ext.content_eq hlt).trans hc
  have hp₁ := (hl.ext.parent_eq hlt).trans hp
  have hne : id ≠ object := Nat.ne_of_gt (Nat.lt_of_lt_of_le hlt hl.le_id)
  have hold : ∀ old, done.find? name = some old → old < d₁.nodes.size := fun old hx =>
    lt_size_of_parent (hl.forest.parent_of_find? hc₁ hx)
  have hattach := attachable_of_parent_eq_none hp₁ hl.parent_id (hl.ne_root hr) hne
  have hinsert : d₁.insertField object name id =
      .ok (d₁.linkMember object done name id, done.find? name) :=
    insertField_eq_ok_iff.mpr ⟨done, hc₁, hattach, rfl⟩
  refine ⟨_, hinsert, rfl, (hr.extend hl.ext hl.forest).insertField hl.id_lt hinsert, ?_, ?_⟩
  · rw [content_linkMember (lt_size_of_content_object hc₁), if_pos rfl]
  · rw [parent_linkMember hl.id_lt hold, if_neg (Ne.symm hne), hp₁, ite_self]

/-- An object that is the root shows what became its only member. -/
theorem Laid.insertField_root (hl : Laid [] (new (.object [])) d₁ id t) (name : String) :
    ∃ r, d₁.insertField d₁.root name id = .ok r ∧ r.1.toTree = .object [(name, t)] := by
  have hr : (new (.object [])).Rooted := rooted_new rfl
  have hc : (new (.object [])).content 0 = .object [] := rfl
  have hroot : d₁.root = 0 := hl.ext.root_eq
  obtain ⟨⟨d₂, old⟩, hinsert, rfl, hr', hc', hp'⟩ := hl.insertField hr hc rfl name
  have hmembers : LaidMembers (new (.object [])) 0 [] (d₁.linkMember 0 [] name id) [(name, t)] :=
    .cons hl (hl.ext.content_eq hr.root_lt) hr.root_lt (.nil hr'.forest hc' hp')
  obtain ⟨ids, hids, hs⟩ := hmembers.shows
  refine ⟨_, hroot ▸ hinsert, ?_⟩
  rw [toTree, root_linkMember, hroot]
  exact hr'.forest.tree_eq (lt_size_of_content_object hids)
    ⟨ids, hids, hs _ (fun _ _ _ => rfl) [] showsMembers_nil⟩

end Document

namespace Transformer

open Document
open Template (Error Outcome Setting Compiled CompiledValue Ready Told contents namedContents)

/-! ## Content -/

/-- The output after `out` has no content, or a new node on top of the tree. -/
inductive Holds (out : Document) : Content → Option (Tree Scalar) → Prop
  | none {out' : Document} : out.Extends out' → out'.Forest → Holds out (out', none) none
  | some {out' : Document} {id : NodeId} {t : Tree Scalar} :
    Laid [] out out' id t → Holds out (out', some id) (some t)

/-- Whatever the output is, the maker does what is meant. -/
def Realizes (make : Maker) (mean : NodeId → Outcome) (ids : List NodeId) : Prop :=
  ∀ id ∈ ids, ∀ out : Document, out.Rooted → Agrees (Holds out) (make out id) (mean id)

section Containers

variable {make : Maker} {mean : NodeId → Outcome} {out : Document} {top : NodeId}

theorem agrees_pushEach {ids done : List NodeId} (hmake : Realizes make mean ids)
    (hr : out.Rooted) (hc : out.content top = .array done) (hp : out.parent top = none) :
    Agrees (LaidItems out top done) (pushEach make out top ids) (contents mean ids) := by
  induction ids generalizing out done with
  | nil => exact .ok (.nil hr.forest hc hp)
  | cons id rest ih =>
    have hrest : Realizes make mean rest := fun i hi => hmake i (List.mem_cons_of_mem _ hi)
    unfold pushEach contents
    refine (hmake id List.mem_cons_self out hr).bind ?_
    rintro _ _ (⟨hext, hforest⟩ | hl)
    · have hlt := lt_size_of_content_array hc
      exact (ih hrest (hr.extend hext hforest) ((hext.content_eq hlt).trans hc)
        ((hext.parent_eq hlt).trans hp)).thenOk fun _ _ hi => hi.skip hext
    · obtain ⟨out', hpush, rfl, hr', hc', hp'⟩ := hl.pushElement hr hc hp
      simp only [hpush]
      exact (ih hrest hr' hc' hp').thenOk fun _ _ hi => hi.cons hl (lt_size_of_content_array hc)

theorem agrees_makeArray {ids : List NodeId} (hmake : Realizes make mean ids)
    (hr : out.Rooted) :
    Agrees (Holds out) (makeArray make out ids)
      (contents mean ids >>= fun ts => .ok (some (.array ts))) := by
  have hc : (out.alloc (.array [])).1.content out.nodes.size = .array [] := by
    rw [content_alloc, if_pos rfl]
  have hp : (out.alloc (.array [])).1.parent out.nodes.size = none := by
    rw [parent_alloc, parent_of_size_le (Nat.le_refl _)]
  refine (agrees_pushEach hmake (hr.alloc rfl) hc hp).bind ?_
  intro out' ts hi
  exact .ok (.some hi.laid)

theorem agrees_insertEach {ms done : Members NodeId} (hmake : Realizes make mean (ms.map Prod.snd))
    (hr : out.Rooted) (hc : out.content top = .object done) (hp : out.parent top = none) :
    Agrees (LaidMembers out top done) (insertEach make out top ms) (namedContents mean ms) := by
  induction ms generalizing out done with
  | nil => exact .ok (.nil hr.forest hc hp)
  | cons m rest ih =>
    obtain ⟨name, id⟩ := m
    have hrest : Realizes make mean (rest.map Prod.snd) :=
      fun i hi => hmake i (List.mem_cons_of_mem _ hi)
    have hlt := lt_size_of_content_object hc
    unfold insertEach namedContents
    refine (hmake id List.mem_cons_self out hr).bind ?_
    rintro _ _ (⟨hext, hforest⟩ | hl)
    · exact (ih hrest (hr.extend hext hforest) ((hext.content_eq hlt).trans hc)
        ((hext.parent_eq hlt).trans hp)).thenOk fun _ _ hi => hi.skip hext
    · obtain ⟨⟨out', old⟩, hinsert, rfl, hr', hc', hp'⟩ := hl.insertField hr hc hp name
      simp only [hinsert]
      exact (ih hrest hr' hc' hp').thenOk fun _ _ hi =>
        hi.cons hl ((hl.ext.content_eq hlt).trans hc) hlt

theorem agrees_makeObject {ms : Members NodeId} (hmake : Realizes make mean (ms.map Prod.snd))
    (hnames : ms.names.Nodup) (hr : out.Rooted) :
    Agrees (Holds out) (makeObject make out ms)
      (namedContents mean ms >>= fun ns => .ok (some (.object ns))) := by
  have hc : (out.alloc (.object [])).1.content out.nodes.size = .object [] := by
    rw [content_alloc, if_pos rfl]
  have hp : (out.alloc (.object [])).1.parent out.nodes.size = none := by
    rw [parent_alloc, parent_of_size_le (Nat.le_refl _)]
  refine (agrees_insertEach hmake (hr.alloc rfl) hc hp).result.bind ?_
  rintro out' ns ⟨hi, hns⟩
  -- No two members of the spec share a name, so that none is replaced.
  have hlaid := hi.laid hr.forest
  rw [Members.ofList_of_nodup (hnames.sublist (Template.names_namedContents hns))] at hlaid
  exact .ok (.some hlaid)

end Containers

/-! ## Directives -/

/-- What a spec is expanded with, in terms of what is meant. -/
def Scope.setting (s : Scope) (c : Config) (mean : NodeId → Outcome) : Setting :=
  ⟨c.strict, s.source, s.node, s.bindings, mean⟩

section Directives

variable {t : Transformer} {s : Scope} {d : Document} {directive : NodeId} {out : Document}
  (mean : NodeId → Outcome)
  (hd : d.Forest) (ht : Told d t.selects)

include hd ht in
theorem pathOf_eq (h : Compiled t.selects directive) :
    t.pathOf d directive = .ok (Setting.pathOf (d.tree directive)) := by
  obtain ⟨path, hpath⟩ := Option.isSome_iff_exists.mp h
  obtain ⟨l, r, hl, -⟩ := List.lookup_eq_some_iff.mp hpath
  have htold := ht (directive, path) (by simp [hl])
  rw [pathOf, hpath, Setting.pathOf, hd.textMember?_tree]
  rcases htext : d.textMember? directive "$select" with _ | text
  · simp [htext] at htold
  · simp_all

include hd ht in
/-- What a directive selects is what its tree selects. -/
theorem select_bind {α : Type} (h : Compiled t.selects directive)
    (f : List NodeId → Except Error α) :
    (t.select s d directive >>= f) = f ((s.setting t.config mean).select (d.tree directive)) := by
  rw [select, pathOf_eq hd ht h]
  rfl

/-- A copy of a node is a new node on top of its tree. -/
theorem laid_copy (hs : s.source.Forest) (hr : out.Rooted) (n : NodeId) :
    Laid [] out (out.addCopy (s.source.tree n)).1 (out.addCopy (s.source.tree n)).2
      (s.source.tree n) :=
  laid_addCopy (hs.namesNodup_tree_any n) hr.forest

include hd ht in
theorem agrees_applyTemplate {apply : Maker} (h : Compiled t.selects directive)
    (happly : ∀ ids, Realizes apply mean ids) (hr : out.Rooted) :
    Agrees (Holds out) (t.applyTemplate s d apply out directive)
      ((s.setting t.config mean).applied (d.tree directive)) := by
  have hflag : ((d.tree directive).member? "$array").bind Tree.boolean? =
      (d.childByName? directive "$array").bind d.boolean? := by
    have hboolean : ∀ c, (d.tree c).boolean? = d.boolean? c := hd.boolean?_tree
    rw [hd.member?_tree, Option.bind_map]
    simp only [Function.comp_def, hboolean]
  rw [applyTemplate, select_bind mean hd ht h, Setting.applied, hflag]
  generalize ((d.childByName? directive "$array").bind d.boolean?).getD true = asArray
  generalize (s.setting t.config mean).select (d.tree directive) = selected
  rcases asArray with _ | _
  · rcases selected with _ | ⟨id, _ | _⟩
    · exact agrees_makeArray (happly _) hr
    · exact happly [id] id List.mem_cons_self out hr
    · exact agrees_makeArray (happly _) hr
  · exact agrees_makeArray (happly _) hr

include hd ht in
/-- The text of a part. -/
theorem addPart_eq {part : NodeId} (h : d.shape part = .object → Compiled t.selects part)
    (text : String) : t.addPart s d text part =
      .ok (text ++ (s.setting t.config mean).partText (d.tree part)) := by
  cases hc : d.content part with
  | value v => simp only [addPart, hc, tree_of_content_value hc, Setting.partText]
  | array items =>
    simp only [addPart, hc, hd.tree_of_content_array hc, Setting.partText, String.append_empty]
  | object ms =>
    have hcompiled : Compiled t.selects part := h (by rw [shape, hc]; rfl)
    have hpart : (s.setting t.config mean).partText (d.tree part) =
        (((s.setting t.config mean).first? (d.tree part)).map Tree.string).getD "" := by
      rw [hd.tree_of_content_object hc]
      rfl
    simp only [addPart, hc, select_bind mean hd ht hcompiled, hpart, Setting.first?]
    rcases ((s.setting t.config mean).select (d.tree part)).head? with _ | n
    · exact congrArg _ String.append_empty.symm
    · rfl

/-- A fold that cannot fail. -/
theorem foldlM_addPart {parts : List NodeId} {f : NodeId → String}
    (h : ∀ part ∈ parts, ∀ text, t.addPart s d text part = .ok (text ++ f part)) (text : String) :
    parts.foldlM (t.addPart s d) text = .ok ((parts.map f).foldl (· ++ ·) text) := by
  induction parts generalizing text with
  | nil => rfl
  | cons part rest ih =>
    rw [List.foldlM_cons, h part List.mem_cons_self]
    exact ih (fun p hp => h p (List.mem_cons_of_mem _ hp)) _

include hd ht in
theorem agrees_valueOf (hs : s.source.Forest) (h : CompiledValue d t.selects directive)
    (hr : out.Rooted) :
    Agrees (fun r u => Laid [] out r.1 r.2 u) (t.valueOf s d out directive)
      (.ok ((s.setting t.config mean).valueOf (d.tree directive))) := by
  cases hc : d.content directive with
  | value v => simp only [CompiledValue, hc] at h
  | array parts =>
    simp only [CompiledValue, hc] at h
    have hparts := foldlM_addPart (t := t) (s := s) (d := d)
      (fun part hpart text => addPart_eq mean hd ht (s := s) (h part hpart) text) ""
    simp only [valueOf, hc, hparts]
    have hvalue : (s.setting t.config mean).valueOf (d.tree directive) =
        .leaf (.string (String.join (parts.map fun part =>
          (s.setting t.config mean).partText (d.tree part)))) := by
      rw [hd.tree_of_content_array hc, Setting.valueOf, List.map_map]
      rfl
    rw [hvalue]
    exact .ok (laid_leaf hr.forest _)
  | object ms =>
    simp only [CompiledValue, hc] at h
    have hvalue : (s.setting t.config mean).valueOf (d.tree directive) =
        ((s.setting t.config mean).first? (d.tree directive)).getD (.leaf .null) := by
      rw [hd.tree_of_content_object hc]
      rfl
    simp only [valueOf, hc, select_bind mean hd ht h, hvalue, Setting.first?]
    rcases ((s.setting t.config mean).select (d.tree directive)).head? with _ | n
    · exact .ok (laid_leaf hr.forest _)
    · exact .ok (laid_copy hs hr n)

include hd ht in
theorem agrees_copyOf (hs : s.source.Forest) (h : Compiled t.selects directive)
    (hr : out.Rooted) :
    Agrees (Holds out) (t.copyOf s d out directive)
      ((s.setting t.config mean).copyOf (d.tree directive)) := by
  simp only [copyOf, select_bind mean hd ht h, Setting.copyOf, Setting.first?, pathOf_eq hd ht h]
  rcases ((s.setting t.config mean).select (d.tree directive)).head? with _ | n
  · have hstrict : (s.setting t.config mean).strict = t.config.strict := rfl
    simp only [Option.map_none, hstrict]
    split
    · exact .error _
    · exact .ok (.none (.refl out) hr.forest)
  · exact .ok (Holds.some (laid_copy hs hr n))

include hd ht in
/-- A spec becomes what it means, if further applications do. -/
theorem agrees_generate {apply : Maker} (hs : s.source.Forest)
    (happly : ∀ ids, Realizes apply mean ids) (fuel : Nat) :
    ∀ {spec : NodeId} {out : Document}, Ready d t.selects fuel spec →
      d.nodes.size ≤ fuel + (d.ancestors spec).length → out.Rooted →
      Agrees (Holds out) (t.generate s d apply fuel out spec)
        ((s.setting t.config mean).expand (d.tree spec)) := by
  induction fuel with
  | zero =>
    -- Only a number that is not in use is that deep.
    intro spec out _ hfuel hr
    have hspec : d.nodes.size ≤ spec := by
      refine Nat.le_of_not_lt fun hlt => ?_
      have := hd.length_ancestors_lt hlt
      omega
    rw [tree_of_size_le hspec, generate, Setting.expand]
    exact .ok (.some (laid_leaf hr.forest .null))
  | succ fuel ih =>
    intro spec out h hfuel hr
    have hchild : ∀ c ∈ d.children spec, d.nodes.size ≤ fuel + (d.ancestors c).length := by
      intro c hc
      have := hd.length_ancestors_of_mem_children hc
      omega
    unfold children at hchild
    cases hc : d.content spec with
    | value v =>
      simp only [generate, hc, tree_of_content_value hc, Setting.expand]
      exact .ok (.some (laid_leaf hr.forest v))
    | array items =>
      simp only [Ready, hc] at h
      simp only [generate, hc, hd.tree_of_content_array hc, Setting.expand,
        Setting.expandItems_eq, Template.contents_map]
      rw [hc] at hchild
      exact agrees_makeArray (fun i hi out hr => ih (h i hi) (hchild i hi) hr) hr
    | object ms =>
      have hfind : ∀ name, Members.find? (ms.map fun m => (m.1, d.tree m.2)) name =
        (Members.find? ms name).map d.tree := fun name => Members.find?_map d.tree ms name
      simp only [Ready, hc] at h
      simp only [generate, hc, hd.tree_of_content_object hc, Setting.expand, hfind,
        Setting.expandMembers_eq, Template.namedContents_map]
      rcases happlied : Members.find? ms "$apply-template" with _ | directive
      · rcases hvalue : Members.find? ms "$value-of" with _ | directive
        · rcases hcopy : Members.find? ms "$copy-of" with _ | directive
          · simp only [happlied, hvalue, hcopy, Option.map_none] at h ⊢
            refine agrees_makeObject ?_ (hd.names_nodup spec ms hc) hr
            intro id hid out hr
            obtain ⟨m, hm, rfl⟩ := List.mem_map.mp hid
            rw [hc] at hchild
            exact ih (h m hm) (hchild m.2 hid) hr
          · simp only [happlied, hvalue, hcopy, Option.map_none, Option.map_some] at h ⊢
            exact agrees_copyOf mean hd ht hs h hr
        · simp only [happlied, hvalue, Option.map_none, Option.map_some] at h ⊢
          have hvalued := (agrees_valueOf (s := s) mean hd ht hs h hr).bind (q := Holds out)
            (f := fun r => .ok (r.1, some r.2)) (g := fun u => .ok (some u))
            fun _ _ hl => .ok (.some hl)
          exact hvalued
      · simp only [happlied, Option.map_some] at h ⊢
        exact agrees_applyTemplate mean hd ht h happly hr

end Directives

/-! ## Applications -/

section Applications

variable {t : Transformer} {source : Document}

theorem agrees_variableValue {vars : Document} (hs : source.Forest) (hvars : vars.Forest)
    (id : NodeId) (v : Template.Variable) :
    Agrees (fun r u => Laid [] vars r.1 r.2 u) (t.variableValue source id v vars)
      (Template.variableAt t.config source id v) := by
  unfold variableValue Template.variableAt
  rcases (source.select none v.select id).head? with _ | n
  · dsimp only
    split
    · exact .error _
    · exact .ok (laid_leaf hvars .null)
  · exact .ok (laid_addCopy (hs.namesNodup_tree_any n) hvars)

/-- A template binds what its rule does. -/
theorem bind_eq (hs : source.Forest) (id : NodeId) (binding : Option Template.Variable) :
    t.bind source id binding = Template.bindingsAt t.config source id binding := by
  cases binding with
  | none => rfl
  | some v =>
    have hroot : (new (.object [])).Rooted := rooted_new rfl
    have hvalue := agrees_variableValue (t := t) hs hroot.forest id v
    simp only [bind, bindVariable, Template.bindingsAt]
    generalize t.variableValue source id v (new (.object [])) = made at hvalue ⊢
    generalize Template.variableAt t.config source id v = value at hvalue ⊢
    cases hvalue with
    | error e => rfl
    | ok hl =>
      obtain ⟨r, hinsert, htree⟩ := hl.insertField_root v.name
      change (Except.mapError Error.tree (Document.insertField _ _ _ _) >>= _) >>= _ = _
      rw [hinsert]
      exact congrArg (fun u => Except.ok (some u)) htree

variable {d : Document}

/-- A node without a template has no content. -/
theorem agrees_noMatch (address : List String) {out : Document} (hr : out.Rooted) :
    Agrees (Holds out)
      (if t.config.strict then .error (Error.noMatch address) else .ok (out, none))
      (if t.config.strict then .error (Error.noMatch address) else .ok none) := by
  split
  · exact .error _
  · exact .ok (.none (.refl out) hr.forest)

/-- The templates and their selections are those of a document. -/
structure Faithful (t : Transformer) (d : Document) : Prop where
  forest : d.Forest
  prepared : t.Prepared
  told : Told d t.selects
  document_eq : ∀ template ∈ t.templates, template.value.document = d

/-- The rules that the templates say. -/
def rules (t : Transformer) : List Template.Rule := t.templates.map Template.rule

theorem find?_rules (t : Transformer) (address : List String) :
    t.rules.find? (·.pattern.holds address) = (t.find? address).map Template.rule := by
  rw [rules, find?, List.find?_map]
  rfl

/-- Applications make what is meant, however many are left. -/
theorem realizes_applyTo (h : t.Faithful d) (hs : source.Forest) (left : Nat)
    (ids : List NodeId) :
    Realizes (t.applyTo source left) (Template.meaning t.rules t.config source left) ids := by
  induction left generalizing ids with
  | zero =>
    intro id _ out hr
    simp only [applyTo, Template.meaning, find?_rules]
    rcases t.find? (source.address id) with _ | template
    · exact agrees_noMatch _ hr
    · exact .error _
  | succ left ih =>
    intro id _ out hr
    simp only [applyTo, Template.meaning, find?_rules, bind_eq hs]
    rcases htemplate : t.find? (source.address id) with _ | template
    · exact agrees_noMatch _ hr
    · have hmem : template ∈ t.templates := List.mem_of_find?_eq_some htemplate
      have hready : template.IsReady t.selects := h.prepared template hmem
      have hd := h.document_eq template hmem
      simp only [Option.map_some, Template.rule, Template.IsReady, hd] at hready ⊢
      rcases Template.bindingsAt t.config source id template.binding with e | bindings
      · exact .error e
      · exact agrees_generate (s := ⟨source, id, bindings⟩) _ h.forest h.told hs ih _ hready
          (Nat.le_add_right _ _) hr

theorem faithful_of_ofDocument {c : Config} (hd : d.Forest) (h : ofDocument c d = .ok t) :
    Template.rules? d.toTree = some t.rules ∧ t.config = c ∧ t.Faithful d := by
  obtain ⟨hconfig, hprepared⟩ := prepared_of_ofDocument h
  obtain ⟨⟨ts, selects⟩, hread, h⟩ := Template.exists_of_bind_eq_ok h
  cases h
  obtain ⟨hrules, hdocument, htold⟩ := Template.rules?_of_readAll hd hread
  exact ⟨hrules, rfl, hd, hprepared, htold, hdocument⟩

theorem renderNode_eq (h : t.Faithful d) (hs : source.Forest) (id : NodeId) :
    (t.renderNode source id).map (Option.map toTree) =
      Template.meaning t.rules t.config source t.config.maxDepth id := by
  have hnew : (new (.value .null)).Rooted := rooted_new rfl
  have hagrees := realizes_applyTo h hs t.config.maxDepth [id] id List.mem_cons_self _ hnew
  rw [renderNode]
  generalize t.applyTo source t.config.maxDepth (new (.value .null)) id = made at hagrees ⊢
  generalize Template.meaning t.rules t.config source t.config.maxDepth id = meant at hagrees ⊢
  cases hagrees with
  | error e => rfl
  | ok hholds =>
    cases hholds with
    | none _ _ => rfl
    | some hl =>
      rename_i out root u
      have hset : out.setRoot root = .ok { out with root } :=
        setRoot_eq_ok_iff.mpr ⟨.inr hl.parent_id, rfl⟩
      change Except.map _ (some <$> (out.setRoot root).mapError Error.tree) = _
      rw [hset]
      exact congrArg (fun u => Except.ok (some u)) hl.rooted.2

end Applications

/-- What an accepted template document makes of a node, read as a tree, as no content or as a
failure, is what its rules mean. -/
theorem renderNode_eq_meaning {c : Config} {d : Document} {t : Transformer} (hd : Reachable d)
    (h : ofDocument c d = .ok t) {source : Document} (hs : Reachable source) (id : NodeId) :
    ∃ rules, Template.rules? d.toTree = some rules ∧
      (t.renderNode source id).map (Option.map toTree) =
        Template.meaning rules c source c.maxDepth id := by
  obtain ⟨hrules, rfl, hfaithful⟩ := faithful_of_ofDocument hd.rooted.forest h
  exact ⟨t.rules, hrules, renderNode_eq hfaithful hs.rooted.forest id⟩

/-- A template for the root, which applies templates to the elements of the member `a`, and one for
these, which puts what they hold into an object. -/
def wrapping : Json.Value :=
  .array [
    .object [("$template", .object [("$match", .leaf (.string "/")),
      ("$value", .object [("$apply-template", .object [("$select", .leaf (.string "a/*"))])])])],
    .object [("$template", .object [("$match", .leaf (.string "/a/*")),
      ("$value", .object [("of", .object [("$copy-of",
        .object [("$select", .leaf (.string "."))])])])])]]

theorem renderNode_eq_meaning_wrapping :
    let source := ofValue (.object [("a", .array [.leaf .null, .array []])])
    ∃ t rules out, ofDocument ⟨false, 2⟩ (ofValue wrapping) = .ok t ∧
      Template.rules? (ofValue wrapping).toTree = some rules ∧
      (t.renderNode source source.root).map (Option.map toTree) =
        Template.meaning rules ⟨false, 2⟩ source 2 source.root ∧
      t.renderNode source source.root = .ok (some out) ∧
      out.toTree.rows = [⟨0, .top, .array 2⟩, ⟨1, .index 0, .object 1⟩,
        ⟨2, .name "of", .leaf .null⟩, ⟨1, .index 1, .object 1⟩, ⟨2, .name "of", .array 0⟩] := by
  intro source
  have hwrapping : wrapping.NamesNodup := by
    simp [wrapping, Tree.NamesNodup, Tree.NamesNodupItems, Tree.NamesNodupMembers]
  have hsource : (Tree.object [("a", .array [.leaf Json.Atom.null, .array []])]).NamesNodup := by
    simp [Tree.NamesNodup, Tree.NamesNodupItems, Tree.NamesNodupMembers]
  have hok : (do
      let t ← ofDocument ⟨false, 2⟩ (ofValue wrapping)
      let out ← t.renderNode source source.root
      return out.map fun out : Document => out.toTree.rows) =
        .ok (some [⟨0, .top, .array 2⟩, ⟨1, .index 0, .object 1⟩, ⟨2, .name "of", .leaf .null⟩,
          ⟨1, .index 1, .object 1⟩, ⟨2, .name "of", .array 0⟩]) :=
    Template.eq_ok_of_toOption_eq_some (by decide +kernel)
  obtain ⟨t, ht, hok⟩ := Template.exists_of_bind_eq_ok hok
  obtain ⟨out, hout, hok⟩ := Template.exists_of_bind_eq_ok hok
  obtain ⟨out, rfl, hrows⟩ := Option.map_eq_some_iff.mp (Except.ok.inj hok)
  obtain ⟨rules, hrules, hmeaning⟩ :=
    renderNode_eq_meaning (.ofValue hwrapping) ht (.ofValue hsource) source.root
  exact ⟨t, rules, out, ht, hrules, hmeaning, hout, hrows⟩

end Transformer

end Reshape
