import Reshape.Proofs.Template.Output
import Reshape.Proofs.Template.Reading

/-!
# How rendering can fail

A template document that was accepted fails later only for want of depth, or, strictly, of a
template or of a selected node. Nothing in its own shape is missed, and no edit of the output is
refused.

## Main definitions

* `Template.Error.Excused`: the failures that are left.
* `Transformer.Ends`: a step that fails in no other way.

## Main statements

* `Transformer.ends_generate`, `Transformer.productive_applyTo`: specs and applications end well.
* `Transformer.renderNode_of_ofDocument`.
-/

namespace Reshape

open Document

/-- A failure for want of depth, or, strictly, of a template or of a selected node. -/
def Template.Error.Excused (c : Config) : Template.Error → Prop
  | .tooDeep limit => limit = c.maxDepth
  | .noMatch _ => c.strict = true
  | .emptySelection _ => c.strict = true
  | _ => False

namespace Transformer

open Template (Error Compiled CompiledValue Ready)

variable {c : Config}

/-! ## Steps that end well -/

/-- A step has a result with `p`, or an excused failure. -/
def Ends {α : Type} (c : Config) (p : α → Prop) : Except Error α → Prop
  | .ok a => p a
  | .error e => e.Excused c

section Ends

variable {α β : Type} {p : α → Prop} {q : β → Prop} {x : Except Error α}

theorem Ends.bind {f : α → Except Error β} (hx : Ends c p x) (hf : ∀ a, p a → Ends c q (f a)) :
    Ends c q (x >>= f) := by
  rcases x with e | a
  · exact hx
  · exact hf a hx

theorem ends_foldlM {f : α → β → Except Error α} {xs : List β} {a : α} (ha : p a)
    (hf : ∀ a, p a → ∀ x ∈ xs, Ends c p (f a x)) : Ends c p (xs.foldlM f a) := by
  induction xs generalizing a with
  | nil => exact ha
  | cons x xs ih =>
    rw [List.foldlM_cons]
    exact (hf a ha x List.mem_cons_self).bind fun b hb =>
      ih hb fun a ha y hy => hf a ha y (List.mem_cons_of_mem _ hy)

end Ends

/-! ## Containers -/

/-- The content, if there is any, is a new node on top. -/
def Yields (out : Document) : Content → Prop
  | (out', none) => out.Extends out'
  | (out', some id) => Made out out' id

/-- Whatever the maker is given, it yields content. -/
def Productive (c : Config) (make : Maker) (ids : List NodeId) : Prop :=
  ∀ id ∈ ids, ∀ out : Document, out.root < out.nodes.size → Ends c (Yields out) (make out id)

section Containers

variable {make : Maker} {base out : Document} {top : NodeId}

theorem ends_pushEach {ids : List NodeId} (hroot : base.root < base.nodes.size)
    (hmake : Productive c make ids) (h : Begun base top .array out) :
    Ends c (Begun base top .array) (pushEach make out top ids) := by
  induction ids generalizing out with
  | nil => exact h
  | cons id rest ih =>
    have hrest : Productive c make rest := fun i hi => hmake i (List.mem_cons_of_mem _ hi)
    unfold pushEach
    refine (hmake id List.mem_cons_self out (h.root_lt hroot)).bind ?_
    rintro ⟨out', content⟩ hyields
    rcases content with _ | child
    · exact ih hrest (h.extend hyields)
    · obtain ⟨out'', hpush, hbegun⟩ := h.exists_pushElement hroot hyields
      simp only [hpush]
      exact ih hrest hbegun

theorem ends_makeArray {ids : List NodeId} (hroot : out.root < out.nodes.size)
    (hmake : Productive c make ids) : Ends c (Yields out) (makeArray make out ids) := by
  have hbegun := begun_alloc (c := .array []) out rfl
  exact (ends_pushEach hroot hmake hbegun).bind fun out' h => h.made

theorem ends_insertEach {ms : Members NodeId} (hroot : base.root < base.nodes.size)
    (hmake : Productive c make (ms.map Prod.snd)) (h : Begun base top .object out) :
    Ends c (Begun base top .object) (insertEach make out top ms) := by
  induction ms generalizing out with
  | nil => exact h
  | cons m rest ih =>
    obtain ⟨name, id⟩ := m
    have hrest : Productive c make (rest.map Prod.snd) :=
      fun i hi => hmake i (List.mem_cons_of_mem _ hi)
    unfold insertEach
    refine (hmake id List.mem_cons_self out (h.root_lt hroot)).bind ?_
    rintro ⟨out', content⟩ hyields
    rcases content with _ | child
    · exact ih hrest (h.extend hyields)
    · obtain ⟨r, hinsert, hbegun⟩ := h.exists_insertField hroot hyields name
      simp only [hinsert]
      exact ih hrest hbegun

theorem ends_makeObject {ms : Members NodeId} (hroot : out.root < out.nodes.size)
    (hmake : Productive c make (ms.map Prod.snd)) :
    Ends c (Yields out) (makeObject make out ms) := by
  have hbegun := begun_alloc (c := .object []) out rfl
  exact (ends_insertEach hroot hmake hbegun).bind fun out' h => h.made

end Containers

/-! ## Directives -/

section Directives

variable {t : Transformer} {s : Scope} {d : Document} {directive : NodeId}

theorem ends_select (h : Compiled t.selects directive) :
    Ends t.config (fun _ => True) (t.select s d directive) := by
  obtain ⟨path, hpath⟩ := Option.isSome_iff_exists.mp h
  rw [select, pathOf, hpath]
  trivial

theorem ends_applyTemplate {apply : Maker} {out : Document} (hroot : out.root < out.nodes.size)
    (h : Compiled t.selects directive) (happly : ∀ ids, Productive t.config apply ids) :
    Ends t.config (Yields out) (t.applyTemplate s d apply out directive) := by
  unfold applyTemplate
  refine (ends_select h).bind ?_
  intro selected _
  generalize ((d.childByName? directive "$array").bind d.boolean?).getD true = asArray
  dsimp only
  split
  · next id => exact happly [id] id List.mem_cons_self out hroot
  · exact ends_makeArray hroot (happly selected)

theorem ends_addPart {part : NodeId} (h : d.shape part = .object → Compiled t.selects part)
    (text : String) : Ends t.config (fun _ => True) (t.addPart s d text part) := by
  cases hc : d.content part with
  | value v =>
    simp only [addPart, hc]
    trivial
  | array items =>
    simp only [addPart, hc]
    trivial
  | object ms =>
    simp only [addPart, hc]
    refine (ends_select (h ?_)).bind ?_
    · rw [shape, hc]
      rfl
    · intro selected _
      rcases selected.head? with _ | n <;> trivial

theorem ends_valueOf {out : Document} (h : CompiledValue d t.selects directive) :
    Ends t.config (fun r => Made out r.1 r.2) (t.valueOf s d out directive) := by
  cases hc : d.content directive with
  | object ms =>
    simp only [CompiledValue, hc] at h
    simp only [valueOf, hc]
    refine (ends_select h).bind ?_
    intro selected _
    rcases selected.head? with _ | n
    · exact made_alloc out _
    · exact made_addCopy _ out
  | array parts =>
    simp only [CompiledValue, hc] at h
    simp only [valueOf, hc]
    refine (ends_foldlM trivial fun text _ part hpart => ends_addPart (h part hpart) text).bind ?_
    intro text _
    exact made_alloc out _
  | value v => simp only [CompiledValue, hc] at h

theorem ends_copyOf {out : Document} (h : Compiled t.selects directive) :
    Ends t.config (Yields out) (t.copyOf s d out directive) := by
  unfold copyOf
  refine (ends_select h).bind ?_
  intro selected _
  rcases selected.head? with _ | n
  · obtain ⟨path, hpath⟩ := Option.isSome_iff_exists.mp h
    rcases hstrict : t.config.strict with _ | _
    · exact .refl out
    · simp only [pathOf, hpath]
      exact hstrict
  · exact made_addCopy _ out

/-- A spec that is ready yields content, if further applications do. -/
theorem ends_generate {apply : Maker} (happly : ∀ ids, Productive t.config apply ids) (fuel : Nat) :
    ∀ {spec : NodeId} {out : Document}, Ready d t.selects fuel spec → out.root < out.nodes.size →
      Ends t.config (Yields out) (t.generate s d apply fuel out spec) := by
  induction fuel with
  | zero =>
    intro spec out _ _
    exact made_alloc out _
  | succ fuel ih =>
    intro spec out h hroot
    cases hc : d.content spec with
    | value v =>
      simp only [generate, hc]
      exact made_alloc out _
    | array items =>
      simp only [Ready, hc] at h
      simp only [generate, hc]
      exact ends_makeArray hroot fun item hitem out hroot => ih (h item hitem) hroot
    | object ms =>
      simp only [Ready, hc] at h
      simp only [generate, hc]
      rcases happlied : Members.find? ms "$apply-template" with _ | directive
      · rcases hvalue : Members.find? ms "$value-of" with _ | directive
        · rcases hcopy : Members.find? ms "$copy-of" with _ | directive
          · simp only [happlied, hvalue, hcopy] at h ⊢
            refine ends_makeObject hroot ?_
            intro id hid out hroot
            obtain ⟨m, hm, rfl⟩ := List.mem_map.mp hid
            exact ih (h m hm) hroot
          · simp only [happlied, hvalue, hcopy] at h ⊢
            exact ends_copyOf h
        · simp only [happlied, hvalue] at h ⊢
          refine (ends_valueOf h).bind ?_
          intro r hmade
          exact hmade
      · simp only [happlied] at h ⊢
        exact ends_applyTemplate hroot h happly

end Directives

/-! ## Applications -/

section Applications

variable {t : Transformer} {source : Document} {id : NodeId}

theorem ends_variableValue (v : Template.Variable) (vars : Document) :
    Ends t.config (fun r => Made vars r.1 r.2) (t.variableValue source id v vars) := by
  unfold variableValue
  split
  · exact made_addCopy _ vars
  · split
    · next hstrict => exact hstrict
    · exact made_alloc vars _

/-- No edit of the variables is refused. -/
theorem ends_bindVariable (v : Template.Variable) :
    Ends t.config (fun _ => True) (t.bindVariable source id v) := by
  unfold bindVariable
  refine (ends_variableValue v _).bind ?_
  rintro ⟨vars, value⟩ hmade
  obtain ⟨r, hr⟩ := hmade.exists_insertField_root v.name
  simp only [hr]
  trivial

theorem ends_bind (binding : Option Template.Variable) :
    Ends t.config (fun _ => True) (t.bind source id binding) := by
  cases binding with
  | none => trivial
  | some v => exact (ends_bindVariable v).bind fun _ _ => trivial

/-- A node without a template has no content. -/
theorem ends_noMatch {address : List String} {out : Document} :
    Ends t.config (Yields out)
      (if t.config.strict then .error (.noMatch address) else .ok (out, none)) := by
  split
  · next hstrict => exact hstrict
  · exact .refl out

/-- Applications yield content, however many are left. -/
theorem productive_applyTo (h : t.Prepared) (left : Nat) (ids : List NodeId) :
    Productive t.config (t.applyTo source left) ids := by
  induction left generalizing ids with
  | zero =>
    intro id _ out _
    rcases hfind : t.find? (source.address id) with _ | template
    · simp only [applyTo, hfind]
      exact ends_noMatch
    · simp only [applyTo, hfind]
      rfl
  | succ left ih =>
    intro id _ out hroot
    rcases hfind : t.find? (source.address id) with _ | template
    · simp only [applyTo, hfind]
      exact ends_noMatch
    · have hready : template.IsReady t.selects := h template (List.mem_of_find?_eq_some hfind)
      simp only [applyTo, hfind]
      exact (ends_bind template.binding).bind fun bindings _ => ends_generate ih _ hready hroot

theorem ends_renderNode (h : t.Prepared) :
    Ends t.config (fun _ => True) (t.renderNode source id) := by
  unfold renderNode
  have happly : Productive t.config (t.applyTo source t.config.maxDepth) [id] :=
    productive_applyTo h t.config.maxDepth [id]
  refine (happly id List.mem_cons_self _ Nat.zero_lt_one).bind ?_
  rintro ⟨out, content⟩ hyields
  rcases content with _ | root
  · trivial
  · have hmade : Made (new (.value .null)) out root := hyields
    have hset : out.setRoot root = .ok { out with root } := by
      rw [setRoot, hmade.parent_id, if_neg (by simp)]
    simp only [hset]
    trivial

end Applications

/-- A template document that was accepted leaves only failures for want of depth, or, if the
options are strict, of a template or of a selected node, whatever it is applied to. -/
theorem renderNode_of_ofDocument {c : Config} {d : Document} {t : Transformer}
    (h : ofDocument c d = .ok t) (source : Document) (id : NodeId) :
    (∃ out, t.renderNode source id = .ok out) ∨
      t.renderNode source id = .error (.tooDeep c.maxDepth) ∨
      c.strict = true ∧ ((∃ address, t.renderNode source id = .error (.noMatch address)) ∨
        ∃ select, t.renderNode source id = .error (.emptySelection select)) := by
  obtain ⟨rfl, hprepared⟩ := prepared_of_ofDocument h
  have hends : Ends t.config (fun _ => True) (t.renderNode source id) := ends_renderNode hprepared
  rcases hr : t.renderNode source id with e | out
  · rw [hr] at hends
    cases e with
    | tooDeep limit => exact .inr (.inl (congrArg _ (congrArg _ hends)))
    | noMatch address => exact .inr (.inr ⟨hends, .inl ⟨address, rfl⟩⟩)
    | emptySelection select => exact .inr (.inr ⟨hends, .inr ⟨select, rfl⟩⟩)
    | _ => exact hends.elim
  · exact .inl ⟨out, rfl⟩

/-- One template, for the root, which copies the member `a`. -/
def copying : Document :=
  .ofReading (.array [.object [("$template", .object [("$match", .leaf (.string "/")),
    ("$value", .object [("$copy-of", .object [("$select", .leaf (.string "a"))])])])]])

theorem renderNode_copying : ∃ t, ofDocument ⟨true, 1⟩ copying = .ok t ∧
    ((∃ out, t.renderNode (new (.object [])) 0 = .ok out) ∨
      t.renderNode (new (.object [])) 0 = .error (.tooDeep 1) ∨
      true = true ∧ ((∃ address, t.renderNode (new (.object [])) 0 = .error (.noMatch address)) ∨
        ∃ select, t.renderNode (new (.object [])) 0 = .error (.emptySelection select))) := by
  have hok : (ofDocument ⟨true, 1⟩ copying).isOk = true := by decide +kernel
  rcases ht : ofDocument ⟨true, 1⟩ copying with e | t
  · rw [ht] at hok
    cases hok
  · exact ⟨t, rfl, renderNode_of_ofDocument ht (new (.object [])) 0⟩

end Transformer

end Reshape
