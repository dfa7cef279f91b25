import Reshape.Proofs.Template.Options

/-!
# Strict options only add failures

Strictly, an ill-formed path, a node without a template and an empty selection are failures;
otherwise each of them has some result. Whatever succeeds strictly meets none of the three, so that
it goes the same way without: the templates are read as the same, and a node is rendered as the same
document.

## Main definitions

* `Refines`: a step that succeeds, succeeds in the same way as another one.
* `Transformer.lenient`: the same templates without strictness.

## Main statements

* `Template.refines_readAll`: so is reading templates.
* `Transformer.refines_renderNode`: and rendering, by the comparison of renderings with other
  options.
* `Transformer.renderNode_strict`.
-/

namespace Reshape

/-! ## Refinement -/

/-- Where the first step succeeds, the second succeeds with the same result. -/
def Refines {ε α : Type} (x y : Except ε α) : Prop := ∀ a, x = .ok a → y = .ok a

namespace Refines

variable {ε α β : Type} {x y : Except ε α}

theorem refl (x : Except ε α) : Refines x x := fun _ => id

/-- A step that fails is refined by any other. -/
theorem error (e : ε) (y : Except ε α) : Refines (.error e) y := by
  rintro a ⟨⟩

theorem bind {f g : α → Except ε β} (h : Refines x y) (hfg : ∀ a, Refines (f a) (g a)) :
    Refines (x >>= f) (y >>= g) := by
  rcases x with e | a
  · exact error e _
  · rw [h a rfl]
    exact hfg a

theorem mapError {ε' : Type} (h : Refines x y) (f : ε → ε') :
    Refines (x.mapError f) (y.mapError f) := by
  rcases x with e | a
  · exact error (f e) _
  · rw [h a rfl]
    exact refl _

theorem foldlM {f g : α → β → Except ε α} (h : ∀ a b, Refines (f a b) (g a b)) (bs : List β)
    (a : α) : Refines (bs.foldlM f a) (bs.foldlM g a) := by
  induction bs generalizing a with
  | nil => exact refl _
  | cons b bs ih =>
    rw [List.foldlM_cons, List.foldlM_cons]
    exact (h a b).bind ih

end Refines

/-! ## Reading -/

/-- A path that is well formed is compiled in the same way whether that is asked or not. -/
theorem Path.refines_compileWith (text : String) :
    Refines (compileWith true text) (compileWith false text) := by
  intro p hp
  rw [compileWith, if_pos rfl, compileStrict] at hp
  split at hp
  · cases hp
  · exact hp

theorem Pattern.refines_compile (text : String) :
    Refines (compile true text) (compile false text) :=
  (Path.refines_compileWith text).bind fun _ => .refl (.ok _)

namespace Template

variable {d : Document}

theorem refines_readPath (text : String) : Refines (readPath true text) (readPath false text) :=
  (Path.refines_compileWith text).mapError _

theorem refines_register (name : String) (directive : NodeId) (selects : Selects) :
    Refines (register true d name directive selects) (register false d name directive selects) := by
  unfold register
  split
  · exact (refines_readPath _).bind fun _ => .refl _
  · exact .refl _

theorem refines_collectApply (directive : NodeId) (selects : Selects) :
    Refines (collectApply true d directive selects) (collectApply false d directive selects) := by
  unfold collectApply
  split
  · split
    · exact .refl _
    · exact refines_register _ directive selects
  · exact refines_register _ directive selects

theorem refines_collectValueOf (directive : NodeId) (selects : Selects) :
    Refines (collectValueOf true d directive selects)
      (collectValueOf false d directive selects) := by
  unfold collectValueOf
  split
  · exact refines_register _ directive selects
  · exact .foldlM (fun selects part => refines_register _ part selects) _ selects
  · exact .refl _

theorem refines_collect (fuel : Nat) (spec : NodeId) (selects : Selects) :
    Refines (collect true d fuel spec selects) (collect false d fuel spec selects) := by
  induction fuel generalizing spec selects with
  | zero => exact .refl _
  | succ fuel ih =>
    unfold collect
    split
    · exact .refl _
    · exact .foldlM (fun selects item => ih item selects) _ selects
    · split
      · exact refines_collectApply _ selects
      · split
        · exact refines_collectValueOf _ selects
        · split
          · exact refines_register _ _ selects
          · exact .foldlM (fun selects (m : String × NodeId) => ih m.2 selects) _ selects

theorem refines_readVariable (entry declaration : NodeId) :
    Refines (readVariable true d entry declaration) (readVariable false d entry declaration) := by
  unfold readVariable
  split
  · exact .refl _
  · split
    · exact .refl _
    · exact (refines_readPath _).bind fun _ => .refl _

theorem refines_readBinding (entry : NodeId) (declaration : Option NodeId) :
    Refines (readBinding true d entry declaration) (readBinding false d entry declaration) := by
  cases declaration with
  | none => exact .refl _
  | some declaration =>
    exact (refines_readVariable entry declaration).bind fun _ => .refl _

theorem refines_readBody (entry body : NodeId) (selects : Selects) :
    Refines (readBody true d entry body selects) (readBody false d entry body selects) := by
  unfold readBody
  split
  · exact .refl _
  · refine ((Pattern.refines_compile _).mapError _).bind fun pattern => ?_
    refine (refines_readBinding entry _).bind fun binding => ?_
    split
    · exact .refl _
    · exact (refines_collect _ _ selects).bind fun _ => .refl _

theorem refines_readEntry (entry : NodeId) (selects : Selects) :
    Refines (readEntry true d entry selects) (readEntry false d entry selects) := by
  unfold readEntry
  split
  · exact .refl _
  · exact refines_readBody entry _ selects

theorem refines_readEntries (entries : List NodeId) (selects : Selects) :
    Refines (readEntries true d entries selects) (readEntries false d entries selects) := by
  induction entries generalizing selects with
  | nil => exact .refl _
  | cons entry rest ih =>
    unfold readEntries
    exact (refines_readEntry entry selects).bind fun r => (ih r.2).bind fun _ => .refl _

/-- Templates that are read strictly are read as the same otherwise. -/
theorem refines_readAll (d : Document) : Refines (readAll true d) (readAll false d) := by
  unfold readAll
  split
  · exact .refl _
  · exact refines_readEntries _ []

end Template

/-! ## Rendering -/

namespace Transformer

/-- The same templates without strictness. -/
def lenient (t : Transformer) : Transformer := { t with config.strict := false }

variable (t : Transformer)

/-- A rendering that succeeds strictly goes the same way without strictness. -/
theorem refines_renderNode (source : Document) (id : NodeId) :
    Refines (t.renderNode source id) (t.lenient.renderNode source id) := by
  have hstrict : Loosens (fun _ => True) t.config t.lenient.config := by
    rcases hc : t.config.strict with _ | _
    · exact .inl hc.symm
    · exact .inr ⟨hc, fun _ => trivial⟩
  have htracks : Tracks (fun _ => True) (fun e => e) (t.renderNode source id)
      (t.lenient.renderNode source id) :=
    t.tracks_renderNode (fun _ _ => rfl) hstrict (Nat.le_refl _) (.inl trivial) source id
  intro out hout
  rw [hout] at htracks
  exact htracks

/-- A transformer that was made strictly is made without strictness as the same, but for that
option. -/
theorem ofDocument_lenient {maxDepth : Nat} {d : Document} {t : Transformer}
    (h : ofDocument ⟨true, maxDepth⟩ d = .ok t) :
    ofDocument ⟨false, maxDepth⟩ d = .ok t.lenient := by
  obtain ⟨⟨ts, selects⟩, hread, h⟩ := Template.exists_of_bind_eq_ok h
  cases h
  rw [ofDocument, Template.refines_readAll d _ hread]
  rfl

/-- Strictness only adds failures: templates that are accepted strictly are accepted without
strictness, and a node that is rendered strictly is rendered as the same document, or as the same
absence of content, without. A rendering without strictness that wants for depth fails strictly
too. -/
theorem renderNode_strict {maxDepth : Nat} {d : Document} {t : Transformer}
    (h : ofDocument ⟨true, maxDepth⟩ d = .ok t) (source : Document) (id : NodeId) :
    ∃ t', ofDocument ⟨false, maxDepth⟩ d = .ok t' ∧
      (∀ out, t.renderNode source id = .ok out → t'.renderNode source id = .ok out) ∧
      ((∃ limit, t'.renderNode source id = .error (.tooDeep limit)) →
        ∃ e, t.renderNode source id = .error e) := by
  refine ⟨t.lenient, ofDocument_lenient h, t.refines_renderNode source id, ?_⟩
  rintro ⟨limit, hdeep⟩
  rcases hr : t.renderNode source id with e | out
  · exact ⟨e, rfl⟩
  · rw [t.refines_renderNode source id out hr] at hdeep
    cases hdeep

/-- A template for the root, which applies templates to the elements of the member `a`, and one for
these, which copies them. -/
def copyingItems : Document :=
  .ofReading (.array [
    .object [("$template", .object [("$match", .leaf (.string "/")),
      ("$value", .object [("$apply-template", .object [("$select", .leaf (.string "a/*"))])])])],
    .object [("$template", .object [("$match", .leaf (.string "/a/*")),
      ("$value", .object [("$copy-of", .object [("$select", .leaf (.string "."))])])])]])

theorem renderNode_strict_copyingItems :
    let source := Document.ofReading (.object [("a", .array [.leaf .null, .array []])])
    ∃ t t' out, ofDocument ⟨true, 2⟩ copyingItems = .ok t ∧
      ofDocument ⟨false, 2⟩ copyingItems = .ok t' ∧
      t.renderNode source 0 = .ok (some out) ∧ t'.renderNode source 0 = .ok (some out) := by
  intro source
  have hok : (do
      let t ← ofDocument ⟨true, 2⟩ copyingItems
      let out ← t.renderNode source 0
      return out.isSome) = .ok true := Template.eq_ok_of_toOption_eq_some (by decide +kernel)
  obtain ⟨t, ht, hok⟩ := Template.exists_of_bind_eq_ok hok
  obtain ⟨out, hout, hok⟩ := Template.exists_of_bind_eq_ok hok
  obtain ⟨out, rfl⟩ := Option.isSome_iff_exists.mp (Except.ok.inj hok)
  obtain ⟨t', ht', hrender, -⟩ := renderNode_strict ht source 0
  exact ⟨t, t', out, ht, ht', hout, hrender _ hout⟩

end Transformer

end Reshape
