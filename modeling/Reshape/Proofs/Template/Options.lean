import Reshape.Proofs.Template.Reading

/-!
# Rendering with other options

The options decide which failures there are and when depth is wanting; what templates make of a node
does not depend on them otherwise. Two renderings by the same templates, with different options or
with more applications left, go the same way until one of them fails, and what becomes of a failure
is said by two parameters: some failures are waived, and then nothing is known of the other
rendering, and all others are met by it too, reworded.

## Main definitions

* `Tracks`: a step that goes the way of another one, up to failures.
* `Template.Error.WantsDepth`, `Shallow`: want of depth, and steps that do not fail for it.
* `Transformer.withOptions`: the same templates with other options.

## Main statements

* `Transformer.tracks_generate`, `Transformer.tracks_applyTo`: specs and applications.
-/

namespace Reshape

open Template (Error)

/-! ## Steps that go the same way -/

/-- Where the first step succeeds, the second succeeds with the same result; where it fails, the
failure is waived, or the second fails as `reword` says. -/
def Tracks {α : Type} (waived : Error → Prop) (reword : Error → Error) (x y : Except Error α) :
    Prop :=
  match x with
  | .ok a => y = .ok a
  | .error e => waived e ∨ y = .error (reword e)

/-- The failure is for want of depth. -/
def Template.Error.WantsDepth (e : Error) : Prop := ∃ limit, e = .tooDeep limit

/-- The limit that a failure for want of depth names. -/
def Template.Error.limit? : Error → Option Nat
  | .tooDeep limit => some limit
  | _ => none

theorem Template.Error.eq_tooDeep_of_limit?_eq_some {e : Error} {limit : Nat}
    (h : e.limit? = some limit) : e = .tooDeep limit := by
  cases e <;> cases h
  rfl

/-- The step does not fail for want of depth. -/
def Shallow {α : Type} (x : Except Error α) : Prop := ∀ limit, x ≠ .error (.tooDeep limit)

section Steps

variable {α β : Type} {waived : Error → Prop} {reword : Error → Error} {x y : Except Error α}

theorem Tracks.bind {f g : α → Except Error β} (h : Tracks waived reword x y)
    (hfg : ∀ a, Tracks waived reword (f a) (g a)) : Tracks waived reword (x >>= f) (y >>= g) := by
  rcases x with e | a
  · exact h.imp id fun hy => congrArg (· >>= g) hy
  · obtain rfl : y = .ok a := h
    exact hfg a

/-- A step all of whose failures are waived. -/
theorem tracks_of_waived (h : ∀ e, waived e) (hx : ∀ a, x = .ok a → y = .ok a) :
    Tracks waived reword x y := by
  rcases x with e | a
  · exact .inl (h e)
  · exact hx a rfl

/-- Where no failure is waived, the failures of the second step are those of the first, reworded. -/
theorem tracks_false_iff : Tracks (fun _ => False) reword x y ↔ y = x.mapError reword := by
  rcases x with e | a
  · exact or_iff_right id
  · exact Iff.rfl

/-- Where only want of depth is waived, steps that do not want depth are the same. -/
theorem Tracks.eq_of_shallow (h : Tracks Error.WantsDepth (fun e => e) x y) (hx : Shallow x) :
    y = x := by
  rcases x with e | a
  · rcases h with ⟨limit, rfl⟩ | hy
    · exact absurd rfl (hx limit)
    · exact hy
  · exact h

theorem shallow_ok (a : α) : Shallow (.ok a) := by
  rintro limit ⟨⟩

theorem Shallow.bind {f : α → Except Error β} (hx : Shallow x) (hf : ∀ a, Shallow (f a)) :
    Shallow (x >>= f) := by
  rcases x with e | a
  · intro limit h
    cases h
    exact hx limit rfl
  · exact hf a

theorem shallow_foldlM {f : β → α → Except Error β} (h : ∀ b a, Shallow (f b a)) (as : List α)
    (b : β) : Shallow (as.foldlM f b) := by
  induction as generalizing b with
  | nil => exact shallow_ok b
  | cons a as ih => exact (h b a).bind ih

theorem shallow_mapError_tree (r : Except Document.EditError α) : Shallow (r.mapError .tree) := by
  rcases r with e | a
  · rintro limit ⟨⟩
  · exact shallow_ok a

/-- A step goes its own way, if failures for other reasons than depth keep their wording. -/
theorem Shallow.tracks (hreword : ∀ e, (∀ limit, e ≠ .tooDeep limit) → reword e = e)
    (hx : Shallow x) : Tracks waived reword x x := by
  rcases x with e | a
  · exact .inr (congrArg _ (hreword e fun limit he => hx limit (congrArg _ he)).symm)
  · rfl

end Steps

namespace Transformer

open Document

/-! ## Failures for other reasons than depth -/

section Shallow

variable {t : Transformer} {s : Scope} {d out : Document} {directive : NodeId}

theorem shallow_pathOf : Shallow (t.pathOf d directive) := by
  unfold pathOf
  split
  · exact shallow_ok _
  · rintro limit ⟨⟩

theorem shallow_select : Shallow (t.select s d directive) :=
  shallow_pathOf.bind fun _ => shallow_ok _

theorem shallow_addPart (text : String) (part : NodeId) : Shallow (t.addPart s d text part) := by
  unfold addPart
  split
  · refine shallow_select.bind fun selected => ?_
    rcases selected.head? with _ | n <;> exact shallow_ok _
  · exact shallow_ok _
  · exact shallow_ok _

theorem shallow_valueOf : Shallow (t.valueOf s d out directive) := by
  unfold valueOf
  split
  · refine shallow_select.bind fun selected => ?_
    rcases selected.head? with _ | n <;> exact shallow_ok _
  · exact (shallow_foldlM shallow_addPart _ _).bind fun _ => shallow_ok _
  · rintro limit ⟨⟩

theorem shallow_copyOf : Shallow (t.copyOf s d out directive) := by
  unfold copyOf
  refine shallow_select.bind fun selected => ?_
  rcases selected.head? with _ | n
  · dsimp only
    split
    · exact shallow_pathOf.bind fun path => by rintro limit ⟨⟩
    · exact shallow_ok _
  · exact shallow_ok _

theorem shallow_bind (source : Document) (id : NodeId) (binding : Option Template.Variable) :
    Shallow (t.bind source id binding) := by
  cases binding with
  | none => exact shallow_ok _
  | some v =>
    have hvalue : Shallow (t.variableValue source id v (.new (.object []))) := by
      unfold variableValue
      split
      · exact shallow_ok _
      · split
        · rintro limit ⟨⟩
        · exact shallow_ok _
    have hvars : Shallow (t.bindVariable source id v) :=
      hvalue.bind fun _ => (shallow_mapError_tree _).bind fun _ => shallow_ok _
    exact hvars.bind fun _ => shallow_ok _

/-- The document of the content that was made, if there is any. -/
def finish : Content → Except Error (Option Document)
  | (_, none) => .ok none
  | (out, some root) => some <$> (out.setRoot root).mapError .tree

theorem renderNode_eq_bind (t : Transformer) (source : Document) (id : NodeId) :
    t.renderNode source id =
      (t.applyTo source t.config.maxDepth (.new (.value .null)) id >>= finish) := by
  rw [renderNode]
  rcases t.applyTo source t.config.maxDepth (.new (.value .null)) id with e | ⟨out, _ | root⟩ <;>
    rfl

theorem shallow_finish (r : Content) : Shallow (finish r) := by
  obtain ⟨out, _ | root⟩ := r
  · exact shallow_ok _
  · exact (shallow_mapError_tree (out.setRoot root)).bind fun out => shallow_ok (some out)

end Shallow

/-! ## Containers -/

section Containers

variable {waived : Error → Prop} {reword : Error → Error}
  (hreword : ∀ e, (∀ limit, e ≠ .tooDeep limit) → reword e = e) {make make' : Maker}

include hreword

theorem tracks_pushEach {ids : List NodeId}
    (h : ∀ id ∈ ids, ∀ out, Tracks waived reword (make out id) (make' out id)) (out : Document)
    (array : NodeId) :
    Tracks waived reword (pushEach make out array ids) (pushEach make' out array ids) := by
  induction ids generalizing out with
  | nil => rfl
  | cons id rest ih =>
    have ih := ih fun i hi => h i (List.mem_cons_of_mem _ hi)
    unfold pushEach
    refine (h id List.mem_cons_self out).bind fun r => ?_
    rcases r with ⟨out, _ | c⟩
    · exact ih out
    · exact ((shallow_mapError_tree _).tracks hreword).bind ih

theorem tracks_makeArray {ids : List NodeId}
    (h : ∀ id ∈ ids, ∀ out, Tracks waived reword (make out id) (make' out id)) (out : Document) :
    Tracks waived reword (makeArray make out ids) (makeArray make' out ids) :=
  (tracks_pushEach hreword h _ _).bind fun _ => rfl

theorem tracks_insertEach {ms : Members NodeId}
    (h : ∀ id ∈ ms.map Prod.snd, ∀ out, Tracks waived reword (make out id) (make' out id))
    (out : Document) (object : NodeId) :
    Tracks waived reword (insertEach make out object ms) (insertEach make' out object ms) := by
  induction ms generalizing out with
  | nil => rfl
  | cons m rest ih =>
    have ih := ih fun i hi => h i (List.mem_cons_of_mem _ hi)
    unfold insertEach
    refine (h m.2 List.mem_cons_self out).bind fun r => ?_
    rcases r with ⟨out, _ | c⟩
    · exact ih out
    · exact ((shallow_mapError_tree _).tracks hreword).bind fun r => ih r.1

theorem tracks_makeObject {ms : Members NodeId}
    (h : ∀ id ∈ ms.map Prod.snd, ∀ out, Tracks waived reword (make out id) (make' out id))
    (out : Document) :
    Tracks waived reword (makeObject make out ms) (makeObject make' out ms) :=
  (tracks_insertEach hreword h _ _).bind fun _ => rfl

end Containers

/-! ## Specs and applications -/

/-- The same templates with other options. -/
def withOptions (t : Transformer) (c : Config) : Transformer := { t with config := c }

/-- What is not accepted strictly may be accepted otherwise, if all failures are waived. -/
def Loosens (waived : Error → Prop) (c c' : Config) : Prop :=
  c'.strict = c.strict ∨ c.strict = true ∧ ∀ e, waived e

section Options

variable (t : Transformer) {c : Config} {waived : Error → Prop} {reword : Error → Error}
  (hreword : ∀ e, (∀ limit, e ≠ .tooDeep limit) → reword e = e)
  (hstrict : Loosens waived t.config c)

include hreword hstrict

/-- Strictly `x` fails, otherwise `y` is the result. -/
theorem tracks_strict {α : Type} {x y : Except Error α} (hfails : ∀ a, x ≠ .ok a) (hx : Shallow x)
    (hy : Shallow y) :
    Tracks waived reword (if t.config.strict then x else y) (if c.strict then x else y) := by
  rcases hstrict with hsame | ⟨hstrict, hwaived⟩
  · rw [hsame]
    split
    · exact hx.tracks hreword
    · exact hy.tracks hreword
  · rw [hstrict, if_pos rfl]
    exact tracks_of_waived hwaived fun a ha => absurd ha (hfails a)

theorem tracks_copyOf (s : Scope) (d out : Document) (directive : NodeId) :
    Tracks waived reword (t.copyOf s d out directive)
      ((t.withOptions c).copyOf s d out directive) := by
  have hselect : Tracks waived reword (t.select s d directive) (t.select s d directive) :=
    shallow_select.tracks hreword
  refine hselect.bind fun selected => ?_
  rcases selected.head? with _ | n
  · refine t.tracks_strict hreword hstrict ?_ ?_ (shallow_ok _)
    · rcases t.pathOf d directive with e | path <;> rintro a ⟨⟩
    · exact shallow_pathOf.bind fun path => by rintro limit ⟨⟩
  · rfl

omit hstrict in
theorem tracks_applyTemplate {apply apply' : Maker}
    (h : ∀ out id, Tracks waived reword (apply out id) (apply' out id)) (s : Scope)
    (d out : Document) (directive : NodeId) :
    Tracks waived reword (t.applyTemplate s d apply out directive)
      ((t.withOptions c).applyTemplate s d apply' out directive) := by
  have hselect : Tracks waived reword (t.select s d directive) (t.select s d directive) :=
    shallow_select.tracks hreword
  refine hselect.bind fun selected => ?_
  dsimp only
  split
  · exact h out _
  · exact tracks_makeArray hreword (fun id _ out => h out id) out

theorem tracks_generate {apply apply' : Maker}
    (h : ∀ out id, Tracks waived reword (apply out id) (apply' out id)) (s : Scope) (d : Document)
    (fuel : Nat) (out : Document) (spec : NodeId) :
    Tracks waived reword (t.generate s d apply fuel out spec)
      ((t.withOptions c).generate s d apply' fuel out spec) := by
  induction fuel generalizing out spec with
  | zero => rfl
  | succ fuel ih =>
    unfold generate
    split
    · rfl
    · exact tracks_makeArray hreword (fun id _ out => ih out id) out
    · split
      · exact t.tracks_applyTemplate hreword h s d out _
      · split
        · exact (shallow_valueOf.tracks hreword).bind fun _ => rfl
        · split
          · exact t.tracks_copyOf hreword hstrict s d out _
          · exact tracks_makeObject hreword (fun id _ out => ih out id) out

theorem tracks_bind (source : Document) (id : NodeId) (binding : Option Template.Variable) :
    Tracks waived reword (t.bind source id binding)
      ((t.withOptions c).bind source id binding) := by
  cases binding with
  | none => rfl
  | some v =>
    have hvalue : Tracks waived reword (t.variableValue source id v (.new (.object [])))
        ((t.withOptions c).variableValue source id v (.new (.object []))) := by
      unfold variableValue
      split
      · rfl
      · exact t.tracks_strict hreword hstrict (by rintro a ⟨⟩) (by rintro limit ⟨⟩) (shallow_ok _)
    have hvars : Tracks waived reword (t.bindVariable source id v)
        ((t.withOptions c).bindVariable source id v) :=
      hvalue.bind fun _ => ((shallow_mapError_tree _).tracks hreword).bind fun _ => rfl
    exact hvars.bind fun _ => rfl

/-- With at least as many applications left, templates make the same of a node, unless depth was
wanting where that is waived. -/
theorem tracks_applyTo (source : Document) {left left' : Nat} (hle : left ≤ left')
    (hdeep : waived (.tooDeep t.config.maxDepth) ∨
      left' = left ∧ reword (.tooDeep t.config.maxDepth) = .tooDeep c.maxDepth)
    (out : Document) (id : NodeId) :
    Tracks waived reword (t.applyTo source left out id)
      ((t.withOptions c).applyTo source left' out id) := by
  have hnone : ∀ (address : List String) (out : Document), Tracks waived reword
      (if t.config.strict then .error (.noMatch address) else .ok ((out, none) : Content))
      (if c.strict then .error (.noMatch address) else .ok (out, none)) := fun _ _ =>
    t.tracks_strict hreword hstrict (by rintro a ⟨⟩) (by rintro limit ⟨⟩) (shallow_ok _)
  have hfind : ∀ address, (t.withOptions c).find? address = t.find? address := fun _ => rfl
  induction left generalizing left' out id with
  | zero =>
    unfold applyTo
    rw [hfind]
    split
    · exact hnone _ out
    · rcases hdeep with hwaived | ⟨rfl, hdeep⟩
      · exact .inl hwaived
      · exact .inr (congrArg _ hdeep.symm)
  | succ left ih =>
    obtain ⟨left', rfl⟩ : ∃ n, left' = n + 1 := Nat.exists_eq_succ_of_ne_zero (by omega)
    have ih := ih (Nat.le_of_succ_le_succ hle) (hdeep.imp_right (And.imp_left Nat.succ.inj))
    unfold applyTo
    rw [hfind]
    split
    · exact hnone _ out
    · next template _ =>
      refine (t.tracks_bind hreword hstrict source id template.binding).bind fun bindings => ?_
      exact t.tracks_generate hreword hstrict ih ⟨source, id, bindings⟩ _ _ out _

/-- So do renderings. -/
theorem tracks_renderNode (hle : t.config.maxDepth ≤ c.maxDepth)
    (hdeep : waived (.tooDeep t.config.maxDepth) ∨ c.maxDepth = t.config.maxDepth ∧
      reword (.tooDeep t.config.maxDepth) = .tooDeep c.maxDepth)
    (source : Document) (id : NodeId) :
    Tracks waived reword (t.renderNode source id) ((t.withOptions c).renderNode source id) := by
  rw [renderNode_eq_bind, renderNode_eq_bind]
  exact (t.tracks_applyTo hreword hstrict source hle hdeep _ id).bind fun r =>
    (shallow_finish r).tracks hreword

end Options

end Transformer

end Reshape
