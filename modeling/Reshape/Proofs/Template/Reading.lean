import Reshape.Template.Render

/-!
# Accepted templates are complete

Reading a template document compiles a path for every directive that rendering will come to. What
rendering comes to in a spec is said once, by `Template.Ready`, which asks the same questions in the
same order as `Transformer.generate`.

## Main definitions

* `Template.Ready`: paths are there for all directives of a spec.
* `Transformer.Prepared`: the specs of all templates are ready.

## Main statements

* `Template.secures_collect`: collecting the selections of a spec makes it ready.
* `Transformer.prepared_of_ofDocument`.
-/

namespace Reshape

namespace Template

variable {strict : Bool} {d : Document} {selects selects' : Selects}

/-! ## Directives with paths -/

/-- There is a path for the directive. -/
def Compiled (selects : Selects) (directive : NodeId) : Prop :=
  (selects.lookup directive).isSome = true

/-- There are paths for a directive that makes a value, or for its parts. -/
def CompiledValue (d : Document) (selects : Selects) (directive : NodeId) : Prop :=
  match d.content directive with
  | .object _ => Compiled selects directive
  | .array parts => ∀ part ∈ parts, d.shape part = .object → Compiled selects part
  | .value _ => False

/-- There are paths for all directives that rendering a spec comes to, followed down `fuel`
levels. -/
def Ready (d : Document) (selects : Selects) : Nat → NodeId → Prop
  | 0, _ => True
  | fuel + 1, spec =>
    match d.content spec with
    | .value _ => True
    | .array items => ∀ item ∈ items, Ready d selects fuel item
    | .object ms =>
      match Members.find? ms "$apply-template" with
      | some directive => Compiled selects directive
      | none =>
        match Members.find? ms "$value-of" with
        | some directive => CompiledValue d selects directive
        | none =>
          match Members.find? ms "$copy-of" with
          | some directive => Compiled selects directive
          | none => ∀ m ∈ ms, Ready d selects fuel m.2

/-! ## Collecting -/

/-- Nothing that was compiled is lost. -/
def Grows (selects selects' : Selects) : Prop := ∀ x, Compiled selects x → Compiled selects' x

theorem Grows.refl (selects : Selects) : Grows selects selects := fun _ => id

theorem Grows.trans {selects'' : Selects} (h : Grows selects selects')
    (h' : Grows selects' selects'') : Grows selects selects'' :=
  fun x hx => h' x (h x hx)

/-- A reading that is accepted loses nothing and makes `p` true, now and when more is compiled. -/
def Secures (p : Selects → Prop) (selects : Selects) (r : Except Error Selects) : Prop :=
  ∀ selects', r = .ok selects' →
    Grows selects selects' ∧ ∀ selects'', Grows selects' selects'' → p selects''

theorem secures_ok {p : Selects → Prop} (h : ∀ selects', p selects') :
    Secures p selects (.ok selects) := by
  rintro _ ⟨⟩
  exact ⟨.refl _, fun selects'' _ => h selects''⟩

theorem secures_error {p : Selects → Prop} (e : Error) : Secures p selects (.error e) := by
  rintro _ ⟨⟩

theorem secures_foldlM {β : Type} {p : β → Selects → Prop} {f : Selects → β → Except Error Selects}
    {xs : List β} (h : ∀ x ∈ xs, ∀ selects, Secures (p x) selects (f selects x)) :
    Secures (fun selects' => ∀ x ∈ xs, p x selects') selects (xs.foldlM f selects) := by
  induction xs generalizing selects with
  | nil => exact secures_ok fun _ x hx => nomatch hx
  | cons x xs ih =>
    rw [List.foldlM_cons]
    intro selects' hs
    rcases hx : f selects x with e | middle
    · rw [hx] at hs
      cases hs
    · rw [hx] at hs
      obtain ⟨hgrows, hp⟩ := h x List.mem_cons_self selects middle hx
      obtain ⟨hgrows', hps⟩ := ih (fun y hy => h y (List.mem_cons_of_mem _ hy)) selects' hs
      refine ⟨hgrows.trans hgrows', ?_⟩
      intro selects'' hle y hy
      rcases List.mem_cons.mp hy with rfl | hy
      · exact hp selects'' (hgrows'.trans hle)
      · exact hps selects'' hle y hy

theorem compiled_cons (directive : NodeId) (path : Path) (selects : Selects) :
    Compiled ((directive, path) :: selects) directive := by
  simp [Compiled]

theorem grows_cons (directive : NodeId) (path : Path) (selects : Selects) :
    Grows selects ((directive, path) :: selects) := by
  intro x hx
  rw [Compiled, List.lookup_cons]
  split
  · rfl
  · exact hx

theorem secures_register (name : String) (directive : NodeId) :
    Secures (Compiled · directive) selects (register strict d name directive selects) := by
  unfold register
  split
  · next text _ =>
    rcases hp : readPath strict text with e | path
    · exact secures_error e
    · rintro _ ⟨⟩
      exact ⟨grows_cons directive path selects,
        fun selects'' hle => hle directive (compiled_cons directive path selects)⟩
  · exact secures_error _

theorem secures_collectApply (directive : NodeId) :
    Secures (Compiled · directive) selects (collectApply strict d directive selects) := by
  unfold collectApply
  split
  · split
    · exact secures_error _
    · exact secures_register _ directive
  · exact secures_register _ directive

theorem secures_collectValueOf (directive : NodeId) :
    Secures (CompiledValue d · directive) selects
      (collectValueOf strict d directive selects) := by
  cases hc : d.content directive with
  | object ms =>
    simp only [collectValueOf, CompiledValue, hc]
    exact secures_register _ directive
  | array parts =>
    simp only [collectValueOf, CompiledValue, hc]
    intro selects' hs
    obtain ⟨hgrows, hp⟩ := secures_foldlM
      (fun part _ selects => secures_register "$value-of" part) selects' hs
    refine ⟨hgrows, fun selects'' hle part hpart hshape => hp selects'' hle part ?_⟩
    exact List.mem_filter.mpr ⟨hpart, decide_eq_true hshape⟩
  | value v =>
    simp only [collectValueOf, CompiledValue, hc]
    exact secures_error _

/-- Once its selections are collected, a spec is ready. -/
theorem secures_collect (fuel : Nat) (spec : NodeId) (selects : Selects) :
    Secures (Ready d · fuel spec) selects (collect strict d fuel spec selects) := by
  induction fuel generalizing spec selects with
  | zero => exact secures_ok fun _ => trivial
  | succ fuel ih =>
    cases hc : d.content spec with
    | value v =>
      simp only [collect, Ready, hc]
      exact secures_ok fun _ => trivial
    | array items =>
      simp only [collect, Ready, hc]
      exact secures_foldlM fun item _ selects => ih item selects
    | object ms =>
      -- The three names are looked up in the same order by both.
      rcases happly : Members.find? ms "$apply-template" with _ | directive
      · rcases hvalue : Members.find? ms "$value-of" with _ | directive
        · rcases hcopy : Members.find? ms "$copy-of" with _ | directive
          · simp only [collect, Ready, hc, happly, hvalue, hcopy]
            exact secures_foldlM fun m _ selects => ih m.2 selects
          · simp only [collect, Ready, hc, happly, hvalue, hcopy]
            exact secures_register _ directive
        · simp only [collect, Ready, hc, happly, hvalue]
          exact secures_collectValueOf directive
      · simp only [collect, Ready, hc, happly]
        exact secures_collectApply directive

/-! ## Entries -/

/-- What goes on after a step succeeds if the step does. -/
theorem exists_of_bind_eq_ok {ε α β : Type} {x : Except ε α} {f : α → Except ε β} {b : β}
    (h : (x >>= f) = .ok b) : ∃ a, x = .ok a ∧ f a = .ok b := by
  rcases x with e | a
  · cases h
  · exact ⟨a, rfl, h⟩

theorem eq_ok_of_toOption_eq_some {ε α : Type} {x : Except ε α} {a : α}
    (h : x.toOption = some a) : x = .ok a := by
  rcases x with e | b
  · cases h
  · exact congrArg _ (Option.some.inj h)

/-- The spec of the template is ready. -/
def IsReady (selects : Selects) (t : Template) : Prop :=
  Ready t.value.document selects t.value.document.nodes.size t.value.id

/-- Accepted entries lose nothing that was compiled, and their templates are ready, now and when
more is compiled. -/
theorem isReady_of_readBody {entry body : NodeId} {t : Template}
    (h : readBody strict d entry body selects = .ok (t, selects')) :
    Grows selects selects' ∧ ∀ selects'', Grows selects' selects'' → t.IsReady selects'' := by
  unfold readBody at h
  split at h
  · cases h
  · next text _ =>
    obtain ⟨pattern, -, h⟩ := exists_of_bind_eq_ok h
    obtain ⟨binding, -, h⟩ := exists_of_bind_eq_ok h
    split at h
    · cases h
    · next value _ =>
      obtain ⟨selects₁, hcollect, h⟩ := exists_of_bind_eq_ok h
      cases h
      exact secures_collect d.nodes.size value selects _ hcollect

theorem isReady_of_readEntry {entry : NodeId} {t : Template}
    (h : readEntry strict d entry selects = .ok (t, selects')) :
    Grows selects selects' ∧ ∀ selects'', Grows selects' selects'' → t.IsReady selects'' := by
  unfold readEntry at h
  split at h
  · cases h
  · exact isReady_of_readBody h

theorem isReady_of_readEntries {entries : List NodeId} {ts : List Template}
    (h : readEntries strict d entries selects = .ok (ts, selects')) :
    Grows selects selects' ∧
      ∀ t ∈ ts, ∀ selects'', Grows selects' selects'' → t.IsReady selects'' := by
  induction entries generalizing ts selects with
  | nil =>
    cases h
    exact ⟨.refl _, fun t ht => nomatch ht⟩
  | cons entry rest ih =>
    unfold readEntries at h
    obtain ⟨⟨t, selects₁⟩, hentry, h⟩ := exists_of_bind_eq_ok h
    obtain ⟨⟨ts, selects₂⟩, hrest, h⟩ := exists_of_bind_eq_ok h
    cases h
    obtain ⟨hgrows, ht⟩ := isReady_of_readEntry hentry
    obtain ⟨hgrows', hts⟩ := ih hrest
    refine ⟨hgrows.trans hgrows', ?_⟩
    intro u hu selects'' hle
    rcases List.mem_cons.mp hu with rfl | hu
    · exact ht selects'' (hgrows'.trans hle)
    · exact hts u hu selects'' hle

theorem isReady_of_readAll {ts : List Template} (h : readAll strict d = .ok (ts, selects)) :
    ∀ t ∈ ts, t.IsReady selects := by
  unfold readAll at h
  split at h
  · cases h
  · intro t ht
    exact (isReady_of_readEntries h).2 t ht selects (.refl _)

end Template

namespace Transformer

/-- The specs of all templates are ready. -/
def Prepared (t : Transformer) : Prop := ∀ template ∈ t.templates, template.IsReady t.selects

/-- A transformer that was made has the given options and is prepared. -/
theorem prepared_of_ofDocument {c : Config} {d : Document} {t : Transformer}
    (h : ofDocument c d = .ok t) : t.config = c ∧ t.Prepared := by
  obtain ⟨⟨ts, selects⟩, hread, h⟩ := Template.exists_of_bind_eq_ok h
  cases h
  exact ⟨rfl, Template.isReady_of_readAll hread⟩

end Transformer

end Reshape
