import Mathlib.Data.List.Chain
import Reshape.Proofs.Template.Options

/-!
# Applications inside applications

While a template expands its spec it applies templates to further nodes, one after the other, each
after the output so far. A rendering is the tree of these calls. A spec fails for want of depth
exactly if one of the calls that it comes to does, and so a rendering does exactly if its calls nest
as deep as there are applications.

## Main definitions

* `Transformer.Asks`: the calls that the expansion of a spec comes to.
* `Transformer.Calls`: those that the template of a node comes to.
* `Transformer.Reaches`: the calls of calls, with how many applications are around them.
* `Transformer.Applies`: a template applies templates to a node, whatever the output is.

## Main statements

* `Transformer.exists_asks_of_generate`, `Transformer.Asks.generate_eq_error`: failures of a spec
  for want of depth are those of its calls.
* `Transformer.generate_eq_of_asks`: there are no other calls.
* `Transformer.applyTo_eq_tooDeep_iff`: what rendering wants depth for.
* `Transformer.Reaches.exists_isChain`: calls inside each other follow the templates.
-/

namespace Reshape.Transformer

open Document
open Template (Error)

/-! ## Filling containers -/

/-- A fold that fails does so at one of its elements, after those before it. -/
theorem exists_of_foldlM_eq_error {ε α β : Type} {f : β → α → Except ε β} {as : List α} {b : β}
    {e : ε} (h : as.foldlM f b = .error e) :
    ∃ before a after b', as = before ++ a :: after ∧ before.foldlM f b = .ok b' ∧
      f b' a = .error e := by
  induction as generalizing b with
  | nil => cases h
  | cons a rest ih =>
    rw [List.foldlM_cons] at h
    rcases ha : f b a with e' | b₁
    · rw [ha] at h
      cases h
      exact ⟨[], a, rest, b, rfl, rfl, ha⟩
    · rw [ha] at h
      obtain ⟨before, x, after, b', rfl, hbefore, hx⟩ := ih h
      refine ⟨a :: before, x, after, b', rfl, ?_, hx⟩
      rw [List.foldlM_cons, ha]
      exact hbefore

theorem foldlM_eq_error {ε α β : Type} {f : β → α → Except ε β} {before : List α} {a : α} {b b' : β}
    {e : ε} (hbefore : before.foldlM f b = .ok b') (ha : f b' a = .error e) (after : List α) :
    (before ++ a :: after).foldlM f b = .error e := by
  rw [List.foldlM_append, hbefore]
  change (a :: after).foldlM f b' = .error e
  rw [List.foldlM_cons, ha]
  rfl

/-- A step that goes on to a result fails only if it fails itself. -/
theorem eq_error_of_bind_ok {ε α β : Type} {x : Except ε α} {f : α → β} {e : ε}
    (h : (x >>= fun a => .ok (f a)) = .error e) : x = .error e := by
  rcases x with e' | a
  · exact congrArg _ (Except.error.inj h)
  · cases h

/-- A fold depends on its step only where it comes to it. -/
theorem foldlM_congr {ε α β : Type} {f g : β → α → Except ε β} {as : List α} {b : β}
    (h : ∀ before a after b', as = before ++ a :: after → before.foldlM f b = .ok b' →
      g b' a = f b' a) : as.foldlM g b = as.foldlM f b := by
  induction as generalizing b with
  | nil => rfl
  | cons a rest ih =>
    rw [List.foldlM_cons, List.foldlM_cons, h [] a rest b rfl rfl]
    rcases ha : f b a with e | b₁
    · rfl
    · refine ih fun before x after b' hrest hbefore => ?_
      refine h (a :: before) x after b' (by rw [hrest]; rfl) ?_
      rw [List.foldlM_cons, ha]
      exact hbefore

section Containers

variable {make make' : Maker} {out out' : Document} {top : NodeId} {e : Error} {limit : Nat}

/-- What is made of a node becomes the last element of an array. -/
def pushOne (make : Maker) (top : NodeId) (out : Document) (id : NodeId) :
    Except Error Document := do
  let (out, content) ← make out id
  match content with
  | none => .ok out
  | some c => (out.pushElement top c).mapError .tree

/-- What is made of a node becomes a member of an object. -/
def insertOne (make : Maker) (top : NodeId) (out : Document) (m : String × NodeId) :
    Except Error Document := do
  let (out, content) ← make out m.2
  match content with
  | none => .ok out
  | some c => Prod.fst <$> (out.insertField top m.1 c).mapError .tree

theorem pushEach_eq_foldlM (ids : List NodeId) :
    pushEach make out top ids = ids.foldlM (pushOne make top) out := by
  induction ids generalizing out with
  | nil => rfl
  | cons id rest ih =>
    rw [List.foldlM_cons, pushEach, pushOne]
    rcases make out id with e | ⟨out₁, _ | c⟩
    · rfl
    · exact ih
    · simp only [ih]
      rfl

theorem insertEach_eq_foldlM (ms : Members NodeId) :
    insertEach make out top ms = ms.foldlM (insertOne make top) out := by
  induction ms generalizing out with
  | nil => rfl
  | cons m rest ih =>
    rw [List.foldlM_cons, insertEach, insertOne]
    rcases make out m.2 with e | ⟨out₁, _ | c⟩
    · rfl
    · exact ih
    · simp only [ih]
      change (Except.mapError Error.tree (out₁.insertField top m.1 c) >>= _) =
        (Prod.fst <$> Except.mapError Error.tree (out₁.insertField top m.1 c)) >>= _
      rcases out₁.insertField top m.1 c with e | r <;> rfl

theorem pushOne_eq_error {id : NodeId} (h : make out id = .error e) :
    pushOne make top out id = .error e := by
  rw [pushOne, h]
  rfl

theorem insertOne_eq_error {m : String × NodeId} (h : make out m.2 = .error e) :
    insertOne make top out m = .error e := by
  rw [insertOne, h]
  rfl

/-- An array depends on a maker only through what it is asked for. -/
theorem makeArray_congr {ids : List NodeId}
    (h : ∀ before id after out', ids = before ++ id :: after →
      pushEach make (out.alloc (.array [])).1 out.nodes.size before = .ok out' →
      make' out' id = make out' id) : makeArray make' out ids = makeArray make out ids := by
  have hpush : pushEach make' (out.alloc (.array [])).1 out.nodes.size ids =
      pushEach make (out.alloc (.array [])).1 out.nodes.size ids := by
    rw [pushEach_eq_foldlM, pushEach_eq_foldlM]
    refine foldlM_congr fun before id after out' hids hbefore => ?_
    rw [← pushEach_eq_foldlM] at hbefore
    rw [pushOne, pushOne, h before id after out' hids hbefore]
  exact congrArg (· >>= fun out' => .ok (out', some out.nodes.size)) hpush

/-- An object depends on a maker only through what it is asked for. -/
theorem makeObject_congr {ms : Members NodeId}
    (h : ∀ before name id after out', ms = before ++ (name, id) :: after →
      insertEach make (out.alloc (.object [])).1 out.nodes.size before = .ok out' →
      make' out' id = make out' id) : makeObject make' out ms = makeObject make out ms := by
  have hinsert : insertEach make' (out.alloc (.object [])).1 out.nodes.size ms =
      insertEach make (out.alloc (.object [])).1 out.nodes.size ms := by
    rw [insertEach_eq_foldlM, insertEach_eq_foldlM]
    refine foldlM_congr fun before m after out' hms hbefore => ?_
    rw [← insertEach_eq_foldlM] at hbefore
    rw [insertOne, insertOne, h before m.1 m.2 after out' hms hbefore]
  exact congrArg (· >>= fun out' => .ok (out', some out.nodes.size)) hinsert

/-- Putting what is made of a node into an array wants depth only where making it does. -/
theorem eq_tooDeep_of_pushOne {id : NodeId}
    (h : pushOne make top out id = .error (.tooDeep limit)) :
    make out id = .error (.tooDeep limit) := by
  rcases hid : make out id with e | ⟨out₁, _ | c⟩
  · rw [pushOne, hid] at h
    cases h
    rfl
  · rw [pushOne, hid] at h
    cases h
  · rw [pushOne, hid] at h
    exact absurd h (shallow_mapError_tree (out₁.pushElement top c) limit)

theorem eq_tooDeep_of_insertOne {m : String × NodeId}
    (h : insertOne make top out m = .error (.tooDeep limit)) :
    make out m.2 = .error (.tooDeep limit) := by
  rcases hm : make out m.2 with e | ⟨out₁, _ | c⟩
  · rw [insertOne, hm] at h
    cases h
    rfl
  · rw [insertOne, hm] at h
    cases h
  · rw [insertOne, hm] at h
    exact absurd h ((shallow_mapError_tree (out₁.insertField top m.1 c)).bind
      (fun r => shallow_ok r.1) limit)

end Containers

/-! ## The calls of a spec -/

/-- Whether a directive asks for an array of its selection. -/
def asksArray (d : Document) (directive : NodeId) : Bool :=
  ((d.childByName? directive "$array").bind d.boolean?).getD true

/-- An object in a spec that is no directive. -/
structure Plain (ms : Members NodeId) : Prop where
  noApply : Members.find? ms "$apply-template" = none
  noValue : Members.find? ms "$value-of" = none
  noCopy : Members.find? ms "$copy-of" = none

/-- While a spec is expanded after the output `out`, followed down `fuel` levels, templates are
applied to the node `m` after the output `out'`. -/
inductive Asks (t : Transformer) (s : Scope) (d : Document) (apply : Maker) :
    Nat → Document → NodeId → Document → NodeId → Prop
  /-- The only node that a directive selects is not put into an array. -/
  | single {fuel : Nat} {out : Document} {spec directive m : NodeId} {ms : Members NodeId} :
      d.content spec = .object ms → Members.find? ms "$apply-template" = some directive →
      asksArray d directive = false → t.select s d directive = .ok [m] →
      Asks t s d apply (fuel + 1) out spec out m
  /-- The other nodes are, each after those before it. -/
  | element {fuel : Nat} {out out' : Document} {spec directive m : NodeId} {ms : Members NodeId}
      {before after : List NodeId} :
      d.content spec = .object ms → Members.find? ms "$apply-template" = some directive →
      t.select s d directive = .ok (before ++ m :: after) →
      asksArray d directive = true ∨ (before ++ m :: after).length ≠ 1 →
      pushEach apply (out.alloc (.array [])).1 out.nodes.size before = .ok out' →
      Asks t s d apply (fuel + 1) out spec out' m
  /-- A call of an element of a spec, which comes after the elements before it. -/
  | item {fuel : Nat} {out out₁ out' : Document} {spec item m : NodeId}
      {before after : List NodeId} :
      d.content spec = .array (before ++ item :: after) →
      pushEach (t.generate s d apply fuel) (out.alloc (.array [])).1 out.nodes.size before =
        .ok out₁ →
      Asks t s d apply fuel out₁ item out' m →
      Asks t s d apply (fuel + 1) out spec out' m
  /-- A call of a member of a spec, which comes after the members before it. -/
  | member {fuel : Nat} {out out₁ out' : Document} {spec id m : NodeId} {name : String}
      {before after : Members NodeId} :
      d.content spec = .object (before ++ (name, id) :: after) →
      Plain (before ++ (name, id) :: after) →
      insertEach (t.generate s d apply fuel) (out.alloc (.object [])).1 out.nodes.size before =
        .ok out₁ →
      Asks t s d apply fuel out₁ id out' m →
      Asks t s d apply (fuel + 1) out spec out' m

section Specs

variable {t : Transformer} {s : Scope} {d out : Document} {apply : Maker} {fuel : Nat}
  {spec directive : NodeId} {e : Error} {limit : Nat}

/-! ### Expanding a spec, by what it is -/

theorem generate_of_array {items : List NodeId} (h : d.content spec = .array items) :
    t.generate s d apply (fuel + 1) out spec = makeArray (t.generate s d apply fuel) out items := by
  simp only [generate, h]

theorem generate_of_apply {ms : Members NodeId} (h : d.content spec = .object ms)
    (happly : Members.find? ms "$apply-template" = some directive) :
    t.generate s d apply (fuel + 1) out spec = t.applyTemplate s d apply out directive := by
  simp only [generate, h, happly]

theorem generate_of_plain {ms : Members NodeId} (h : d.content spec = .object ms)
    (hplain : Plain ms) :
    t.generate s d apply (fuel + 1) out spec = makeObject (t.generate s d apply fuel) out ms := by
  simp only [generate, h, hplain.noApply, hplain.noValue, hplain.noCopy]

/-- A spec is an array, an application of templates or an object that is no directive; or no
further application matters to it. -/
theorem spec_cases (t : Transformer) (s : Scope) (d : Document) (spec : NodeId) :
    (∃ items, d.content spec = .array items) ∨
    (∃ ms directive, d.content spec = .object ms ∧
      Members.find? ms "$apply-template" = some directive) ∨
    (∃ ms, d.content spec = .object ms ∧ Plain ms) ∨
    ∀ apply apply' fuel out, Shallow (t.generate s d apply (fuel + 1) out spec) ∧
      t.generate s d apply' (fuel + 1) out spec = t.generate s d apply (fuel + 1) out spec := by
  rcases hc : d.content spec with v | items | ms
  · refine .inr (.inr (.inr fun apply apply' fuel out => ?_))
    simp only [generate, hc, and_true]
    exact shallow_ok _
  · exact .inl ⟨items, rfl⟩
  · rcases happly : Members.find? ms "$apply-template" with _ | directive
    · rcases hvalue : Members.find? ms "$value-of" with _ | directive
      · rcases hcopy : Members.find? ms "$copy-of" with _ | directive
        · exact .inr (.inr (.inl ⟨ms, rfl, happly, hvalue, hcopy⟩))
        · refine .inr (.inr (.inr fun apply apply' fuel out => ?_))
          simp only [generate, hc, happly, hvalue, hcopy, and_true]
          exact shallow_copyOf
      · refine .inr (.inr (.inr fun apply apply' fuel out => ?_))
        simp only [generate, hc, happly, hvalue, and_true]
        exact shallow_valueOf.bind fun _ => shallow_ok _
    · exact .inr (.inl ⟨ms, directive, rfl, happly⟩)

/-- A directive that applies templates selects nothing for want of a path, or a single node that is
not put into an array, or other nodes. -/
theorem select_cases (t : Transformer) (s : Scope) (d : Document) (directive : NodeId) :
    (∃ e, t.select s d directive = .error e) ∨
    (∃ m, asksArray d directive = false ∧ t.select s d directive = .ok [m]) ∨
    ∃ ids, t.select s d directive = .ok ids ∧ (asksArray d directive = true ∨ ids.length ≠ 1) := by
  rcases t.select s d directive with e | ids
  · exact .inl ⟨e, rfl⟩
  · by_cases hids : asksArray d directive = true ∨ ids.length ≠ 1
    · exact .inr (.inr ⟨ids, rfl, hids⟩)
    · obtain ⟨hflag, hlength⟩ := not_or.mp hids
      obtain ⟨m, rfl⟩ := List.length_eq_one_iff.mp (Decidable.not_not.mp hlength)
      exact .inr (.inl ⟨m, by simpa using hflag, rfl⟩)

theorem applyTemplate_of_error (h : t.select s d directive = .error e) :
    t.applyTemplate s d apply out directive = .error e := by
  rw [applyTemplate, h]
  rfl

theorem applyTemplate_of_single {m : NodeId} (hflag : asksArray d directive = false)
    (hselect : t.select s d directive = .ok [m]) :
    t.applyTemplate s d apply out directive = apply out m := by
  unfold asksArray at hflag
  simp only [applyTemplate, hselect, hflag]
  rfl

theorem applyTemplate_of_array {ids : List NodeId} (hselect : t.select s d directive = .ok ids)
    (hids : asksArray d directive = true ∨ ids.length ≠ 1) :
    t.applyTemplate s d apply out directive = makeArray apply out ids := by
  unfold asksArray at hids
  cases hflag : ((d.childByName? directive "$array").bind d.boolean?).getD true with
  | true =>
    simp only [applyTemplate, hselect, hflag]
    rfl
  | false =>
    simp only [applyTemplate, hselect, hflag]
    rcases ids with _ | ⟨id, _ | ⟨_, _⟩⟩
    · rfl
    · simp [hflag] at hids
    · rfl

/-! ### Failures of a spec -/

theorem makeArray_eq_error {make : Maker} {before after : List NodeId} {m : NodeId}
    {out' : Document}
    (hbefore : pushEach make (out.alloc (.array [])).1 out.nodes.size before = .ok out')
    (hm : make out' m = .error e) : makeArray make out (before ++ m :: after) = .error e := by
  rw [pushEach_eq_foldlM] at hbefore
  change (pushEach make (out.alloc (.array [])).1 out.nodes.size (before ++ m :: after) >>= _) = _
  rw [pushEach_eq_foldlM, foldlM_eq_error hbefore (pushOne_eq_error hm)]
  rfl

theorem makeObject_eq_error {make : Maker} {before after : Members NodeId} {name : String}
    {m : NodeId} {out' : Document}
    (hbefore : insertEach make (out.alloc (.object [])).1 out.nodes.size before = .ok out')
    (hm : make out' m = .error e) :
    makeObject make out (before ++ (name, m) :: after) = .error e := by
  rw [insertEach_eq_foldlM] at hbefore
  change (insertEach make (out.alloc (.object [])).1 out.nodes.size (before ++ (name, m) :: after)
    >>= _) = _
  rw [insertEach_eq_foldlM, foldlM_eq_error hbefore (insertOne_eq_error hm)]
  rfl

/-- An array wants depth for one of the nodes that it is made of. -/
theorem exists_of_makeArray_eq_tooDeep {make : Maker} {ids : List NodeId}
    (h : makeArray make out ids = .error (.tooDeep limit)) :
    ∃ before m after out', ids = before ++ m :: after ∧
      pushEach make (out.alloc (.array [])).1 out.nodes.size before = .ok out' ∧
      make out' m = .error (.tooDeep limit) := by
  have hpush : pushEach make (out.alloc (.array [])).1 out.nodes.size ids =
      .error (.tooDeep limit) := eq_error_of_bind_ok h
  rw [pushEach_eq_foldlM] at hpush
  obtain ⟨before, m, after, out', rfl, hbefore, hm⟩ := exists_of_foldlM_eq_error hpush
  rw [← pushEach_eq_foldlM] at hbefore
  exact ⟨before, m, after, out', rfl, hbefore, eq_tooDeep_of_pushOne hm⟩

/-- An object wants depth for one of the nodes that it is made of. -/
theorem exists_of_makeObject_eq_tooDeep {make : Maker} {ms : Members NodeId}
    (h : makeObject make out ms = .error (.tooDeep limit)) :
    ∃ before name m after out', ms = before ++ (name, m) :: after ∧
      insertEach make (out.alloc (.object [])).1 out.nodes.size before = .ok out' ∧
      make out' m = .error (.tooDeep limit) := by
  have hinsert : insertEach make (out.alloc (.object [])).1 out.nodes.size ms =
      .error (.tooDeep limit) := eq_error_of_bind_ok h
  rw [insertEach_eq_foldlM] at hinsert
  obtain ⟨before, ⟨name, m⟩, after, out', rfl, hbefore, hm⟩ := exists_of_foldlM_eq_error hinsert
  rw [← insertEach_eq_foldlM] at hbefore
  exact ⟨before, name, m, after, out', rfl, hbefore, eq_tooDeep_of_insertOne hm⟩

/-- A failure of a call is one of the spec that comes to it. -/
theorem Asks.generate_eq_error {out' : Document} {m : NodeId}
    (h : Asks t s d apply fuel out spec out' m) (hm : apply out' m = .error e) :
    t.generate s d apply fuel out spec = .error e := by
  induction h with
  | single hc happly hflag hselect =>
    rw [generate_of_apply hc happly, applyTemplate_of_single hflag hselect, hm]
  | element hc happly hselect hflag hbefore =>
    rw [generate_of_apply hc happly, applyTemplate_of_array hselect hflag,
      makeArray_eq_error hbefore hm]
  | item hc hbefore _ ih => rw [generate_of_array hc, makeArray_eq_error hbefore (ih hm)]
  | member hc hplain hbefore _ ih =>
    rw [generate_of_plain hc hplain, makeObject_eq_error hbefore (ih hm)]

/-- A spec that wants depth comes to a call that does. -/
theorem exists_asks_of_generate (h : t.generate s d apply fuel out spec = .error (.tooDeep limit)) :
    ∃ out' m, t.Asks s d apply fuel out spec out' m ∧ apply out' m = .error (.tooDeep limit) := by
  induction fuel generalizing out spec with
  | zero => cases h
  | succ fuel ih =>
    rcases t.spec_cases s d spec with ⟨items, hc⟩ | ⟨ms, directive, hc, happly⟩ | ⟨ms, hc, hplain⟩ |
      hnone
    · rw [generate_of_array hc] at h
      obtain ⟨before, item, after, out₁, rfl, hbefore, hitem⟩ := exists_of_makeArray_eq_tooDeep h
      obtain ⟨out', m, hasks, hm⟩ := ih hitem
      exact ⟨out', m, .item hc hbefore hasks, hm⟩
    · rw [generate_of_apply hc happly] at h
      rcases t.select_cases s d directive with ⟨e, hselect⟩ | ⟨m, hflag, hselect⟩ |
        ⟨ids, hselect, hids⟩
      · rw [applyTemplate_of_error hselect] at h
        cases h
        exact absurd hselect (shallow_select limit)
      · rw [applyTemplate_of_single hflag hselect] at h
        exact ⟨out, m, .single hc happly hflag hselect, h⟩
      · rw [applyTemplate_of_array hselect hids] at h
        obtain ⟨before, m, after, out', rfl, hbefore, hm⟩ := exists_of_makeArray_eq_tooDeep h
        exact ⟨out', m, .element hc happly hselect hids hbefore, hm⟩
    · rw [generate_of_plain hc hplain] at h
      obtain ⟨before, name, id, after, out₁, rfl, hbefore, hid⟩ :=
        exists_of_makeObject_eq_tooDeep h
      obtain ⟨out', m, hasks, hm⟩ := ih hid
      exact ⟨out', m, .member hc hplain hbefore hasks, hm⟩
    · exact absurd h ((hnone apply apply fuel out).1 limit)

/-- The expansion of a spec depends on further applications through its calls only. -/
theorem generate_eq_of_asks {apply' : Maker}
    (h : ∀ out' m, t.Asks s d apply fuel out spec out' m → apply' out' m = apply out' m) :
    t.generate s d apply' fuel out spec = t.generate s d apply fuel out spec := by
  induction fuel generalizing out spec with
  | zero => rfl
  | succ fuel ih =>
    rcases t.spec_cases s d spec with ⟨items, hc⟩ | ⟨ms, directive, hc, happly⟩ | ⟨ms, hc, hplain⟩ |
      hnone
    · rw [generate_of_array hc, generate_of_array hc]
      refine makeArray_congr fun before item after out₁ hitems hbefore => ih fun out' m hasks => ?_
      exact h out' m (.item (hitems ▸ hc) hbefore hasks)
    · rw [generate_of_apply hc happly, generate_of_apply hc happly]
      rcases t.select_cases s d directive with ⟨e, hselect⟩ | ⟨m, hflag, hselect⟩ |
        ⟨ids, hselect, hids⟩
      · rw [applyTemplate_of_error hselect, applyTemplate_of_error hselect]
      · rw [applyTemplate_of_single hflag hselect, applyTemplate_of_single hflag hselect]
        exact h out m (.single hc happly hflag hselect)
      · rw [applyTemplate_of_array hselect hids, applyTemplate_of_array hselect hids]
        refine makeArray_congr fun before m after out' hms hbefore => ?_
        exact h out' m (.element hc happly (hms ▸ hselect) (hms ▸ hids) hbefore)
    · rw [generate_of_plain hc hplain, generate_of_plain hc hplain]
      refine makeObject_congr fun before name id after out₁ hms hbefore => ih fun out' m hasks => ?_
      exact h out' m (.member (hms ▸ hc) (hms ▸ hplain) hbefore hasks)
    · exact (hnone apply apply' fuel out).2

end Specs

/-! ## The calls of a rendering -/

/-- The template of the node `id` begins after the output `out`, with `left` applications left for
what is inside it, and applies templates to the node `m` after the output `out'`. -/
def Calls (t : Transformer) (source : Document) (left : Nat) (out : Document) (id : NodeId)
    (out' : Document) (m : NodeId) : Prop :=
  ∃ template bindings, t.find? (source.address id) = some template ∧
    t.bind source id template.binding = .ok bindings ∧
    t.Asks ⟨source, id, bindings⟩ template.value.document (t.applyTo source left)
      template.value.document.nodes.size out template.value.id out' m

/-- While templates make something of the node `id` after the output `out`, with `left` applications
left, they are applied to the node `m` after the output `out'`, inside of `k` others. -/
inductive Reaches (t : Transformer) (source : Document) :
    Nat → Document → NodeId → Nat → Document → NodeId → Prop
  | here {left : Nat} {out : Document} {id : NodeId} : Reaches t source left out id 0 out id
  | inside {left k : Nat} {out out₁ out' : Document} {id n m : NodeId} :
      t.Calls source left out id out₁ n → Reaches t source left out₁ n k out' m →
      Reaches t source (left + 1) out id (k + 1) out' m

section Calls

variable {t : Transformer} {source out out' : Document} {left limit k : Nat} {id m : NodeId}
  {e : Error}

theorem applyTo_succ {template : Template} {bindings : Option (Tree Scalar)}
    (htemplate : t.find? (source.address id) = some template)
    (hbind : t.bind source id template.binding = .ok bindings) :
    t.applyTo source (left + 1) out id =
      t.generate ⟨source, id, bindings⟩ template.value.document (t.applyTo source left)
        template.value.document.nodes.size out template.value.id := by
  simp only [applyTo, htemplate, hbind]
  rfl

/-- A failure of a call is one of the application that makes it. -/
theorem Calls.applyTo_eq_error (h : t.Calls source left out id out' m)
    (hm : t.applyTo source left out' m = .error e) :
    t.applyTo source (left + 1) out id = .error e := by
  obtain ⟨template, bindings, htemplate, hbind, hasks⟩ := h
  rw [applyTo_succ htemplate hbind]
  exact hasks.generate_eq_error hm

/-- An application that wants depth though some is left makes a call that does. -/
theorem exists_calls_of_applyTo
    (h : t.applyTo source (left + 1) out id = .error (.tooDeep limit)) :
    ∃ out' m, t.Calls source left out id out' m ∧
      t.applyTo source left out' m = .error (.tooDeep limit) := by
  rcases htemplate : t.find? (source.address id) with _ | template
  · simp only [applyTo, htemplate] at h
    split at h <;> cases h
  · rcases hbind : t.bind source id template.binding with e | bindings
    · simp only [applyTo, htemplate, hbind] at h
      cases h
      exact absurd hbind (shallow_bind source id template.binding limit)
    · rw [applyTo_succ htemplate hbind] at h
      obtain ⟨out', m, hasks, hm⟩ := exists_asks_of_generate h
      exact ⟨out', m, ⟨template, bindings, htemplate, hbind, hasks⟩, hm⟩

theorem applyTo_zero_eq_tooDeep_iff : t.applyTo source 0 out id = .error (.tooDeep limit) ↔
    limit = t.config.maxDepth ∧ (t.find? (source.address id)).isSome = true := by
  rcases htemplate : t.find? (source.address id) with _ | template
  · simp only [applyTo, htemplate]
    split <;> simp
  · simp [applyTo, htemplate, eq_comm]

/-- Depth is wanting exactly where as many applications as are left are around one that has a
template. -/
theorem applyTo_eq_tooDeep_iff : t.applyTo source left out id = .error (.tooDeep limit) ↔
    limit = t.config.maxDepth ∧ ∃ out' m, t.Reaches source left out id left out' m ∧
      (t.find? (source.address m)).isSome = true := by
  induction left generalizing out id with
  | zero =>
    rw [applyTo_zero_eq_tooDeep_iff]
    refine and_congr_right fun _ => ⟨fun h => ⟨out, id, .here, h⟩, ?_⟩
    rintro ⟨_, _, ⟨⟩, h⟩
    exact h
  | succ left ih =>
    constructor
    · intro h
      obtain ⟨out₁, n, hcalls, hn⟩ := exists_calls_of_applyTo h
      obtain ⟨hlimit, out', m, hreaches, hm⟩ := ih.mp hn
      exact ⟨hlimit, out', m, .inside hcalls hreaches, hm⟩
    · rintro ⟨hlimit, out', m, _ | ⟨hcalls, hreaches⟩, hm⟩
      exact hcalls.applyTo_eq_error (ih.mpr ⟨hlimit, out', m, hreaches, hm⟩)

end Calls

/-! ## Chains of templates -/

/-- A spec comes to a directive that applies templates, through arrays and objects that are no
directives. -/
inductive Directs (d : Document) : NodeId → NodeId → Prop
  | here {spec directive : NodeId} {ms : Members NodeId} :
      d.content spec = .object ms → Members.find? ms "$apply-template" = some directive →
      Directs d spec directive
  | item {spec item directive : NodeId} {items : List NodeId} :
      d.content spec = .array items → item ∈ items → Directs d item directive →
      Directs d spec directive
  | member {spec id directive : NodeId} {name : String} {ms : Members NodeId} :
      d.content spec = .object ms → Plain ms → (name, id) ∈ ms → Directs d id directive →
      Directs d spec directive

/-- The first template that describes the node `n` has a directive in its spec that applies
templates and selects the node `m` from `n`, with the variable of that template. -/
def Applies (t : Transformer) (source : Document) (n m : NodeId) : Prop :=
  ∃ template bindings directive selected, t.find? (source.address n) = some template ∧
    t.bind source n template.binding = .ok bindings ∧
    Directs template.value.document template.value.id directive ∧
    t.select ⟨source, n, bindings⟩ template.value.document directive = .ok selected ∧
    m ∈ selected

section Chains

variable {t : Transformer} {s : Scope} {source d out out' : Document} {apply : Maker}
  {left fuel k : Nat} {spec id m : NodeId}

theorem Asks.exists_directs (h : t.Asks s d apply fuel out spec out' m) :
    ∃ directive selected, Directs d spec directive ∧ t.select s d directive = .ok selected ∧
      m ∈ selected := by
  induction h with
  | single hc happly _ hselect => exact ⟨_, _, .here hc happly, hselect, List.mem_cons_self⟩
  | element hc happly hselect _ _ => exact ⟨_, _, .here hc happly, hselect, by simp⟩
  | item hc _ _ ih =>
    obtain ⟨directive, selected, hdirects, hselect⟩ := ih
    exact ⟨directive, selected, .item hc (by simp) hdirects, hselect⟩
  | member hc hplain _ _ ih =>
    obtain ⟨directive, selected, hdirects, hselect⟩ := ih
    exact ⟨directive, selected,
      .member hc hplain (List.mem_append_right _ List.mem_cons_self) hdirects, hselect⟩

theorem Calls.applies (h : t.Calls source left out id out' m) : t.Applies source id m := by
  obtain ⟨template, bindings, htemplate, hbind, hasks⟩ := h
  obtain ⟨directive, selected, hdirects, hselect, hm⟩ := hasks.exists_directs
  exact ⟨template, bindings, directive, selected, htemplate, hbind, hdirects, hselect, hm⟩

/-- The applications around a call are a chain of nodes, each of which the template of the one
before it applies templates to. -/
theorem Reaches.exists_isChain (h : t.Reaches source left out id k out' m) :
    ∃ ns : List NodeId, ns.length = k ∧ (id :: ns).IsChain (t.Applies source) ∧
      (id :: ns).getLast? = some m := by
  induction h with
  | here => exact ⟨[], rfl, .singleton _, rfl⟩
  | @inside _ _ _ _ _ _ n _ hcalls _ ih =>
    obtain ⟨ns, hlength, hchain, hlast⟩ := ih
    exact ⟨n :: ns, by simp [hlength], .cons_cons hcalls.applies hchain, by simpa using hlast⟩

/-- In a chain whose last node has a template all nodes do. -/
theorem isSome_find?_of_isChain {ns : List NodeId} (h : ns.IsChain (t.Applies source))
    (hlast : ∀ m ∈ ns.getLast?, (t.find? (source.address m)).isSome = true) :
    ∀ n ∈ ns, (t.find? (source.address n)).isSome = true := by
  induction h with
  | nil => simp
  | singleton n => simpa using hlast
  | cons_cons happlies _ ih =>
    obtain ⟨template, _, _, _, htemplate, _⟩ := happlies
    rintro n (_ | ⟨_, hn⟩)
    · rw [htemplate]
      rfl
    · exact ih (by simpa using hlast) n hn

end Chains

end Reshape.Transformer
