import Reshape.Proofs.Document.Reachable
import Reshape.Proofs.Path.Compile
import Reshape.Proofs.Template.Meaning
import Reshape.Proofs.Template.Reading

/-!
# Accepted documents describe rules

A template document that is accepted has a rule for every template that is read from it: the same
pattern, the same variable, and as spec the tree of the node that the template names. The paths that
were compiled for its directives are those of their texts.

## Main definitions

* `Template.rule`: what a template says, without the document that it was read from.
* `Template.Told`: selections by the texts of the directives.

## Main statements

* `Template.keeps_collect`: collecting keeps selections told.
* `Template.rules?_of_readAll`: the templates of a document are its rules.
-/

namespace Reshape

/-! ## Texts and truth values below a node -/

namespace Document.ForestWith

variable {d : Document} {loose : List (Option String × NodeId)}

theorem textMember?_tree (h : d.ForestWith loose) (id : NodeId) (name : String) :
    (d.tree id).textMember? name = d.textMember? id name := by
  have hleaf : ∀ c, (d.tree c).leaf? = d.scalar? c := h.leaf?_tree
  have hmember : ((d.tree id).member? name).bind Tree.leaf? =
      (d.childByName? id name).bind d.scalar? := by
    rw [h.member?_tree, Option.bind_map]
    simp only [Function.comp_def, hleaf]
  rcases hs : (d.childByName? id name).bind d.scalar? with _ | s
  · simp only [Tree.textMember?, textMember?, hmember, hs]
  · cases s <;> simp only [Tree.textMember?, textMember?, hmember, hs]

theorem boolean?_tree (h : d.ForestWith loose) (id : NodeId) :
    (d.tree id).boolean? = d.boolean? id := by
  rcases hs : d.scalar? id with _ | s
  · simp only [Tree.boolean?, boolean?, h.leaf?_tree, hs]
  · cases s <;> simp only [Tree.boolean?, boolean?, h.leaf?_tree, hs]

theorem children_tree (h : d.ForestWith loose) (id : NodeId) :
    (d.tree id).children = (d.children id).map d.tree := by
  rcases hc : d.content id with s | items | ms
  · rw [tree_of_content_value hc, children, hc]
    rfl
  · rw [h.tree_of_content_array hc, children, hc]
    rfl
  · rw [h.tree_of_content_object hc, children, hc]
    simp [Tree.children, Content.children]

end Document.ForestWith

namespace Template

/-- What a template says, without the document that it was read from. -/
def rule (t : Template) : Rule := ⟨t.pattern, t.binding, t.value.document.tree t.value.id⟩

variable {strict : Bool} {d : Document} {selects selects' : Selects}

theorem eq_ok_of_mapError_eq_ok {ε ε' α : Type} {f : ε → ε'} {x : Except ε α} {a : α}
    (h : x.mapError f = .ok a) : x = .ok a := by
  rcases x with e | b
  · cases h
  · exact congrArg _ (Except.ok.inj h)

theorem eq_compile_of_readPath {text : String} {p : Path} (h : readPath strict text = .ok p) :
    p = Path.compile text :=
  Path.eq_compile_of_compileWith (eq_ok_of_mapError_eq_ok h)

/-! ## Selections -/

/-- Every selection is by the path of the text that its directive has. -/
def Told (d : Document) (selects : Selects) : Prop :=
  ∀ m ∈ selects, (d.textMember? m.1 "$select").map Path.compile = some m.2

theorem told_nil (d : Document) : Told d [] := fun _ hm => nomatch hm

/-- A step that adds selections, if it is accepted, keeps them told. -/
def Keeps (d : Document) (step : Selects → Except Error Selects) : Prop :=
  ∀ selects selects', Told d selects → step selects = .ok selects' → Told d selects'

theorem keeps_ok (d : Document) : Keeps d .ok := by
  rintro selects _ h ⟨⟩
  exact h

theorem keeps_error (d : Document) (e : Error) : Keeps d fun _ => .error e := by
  rintro selects _ _ ⟨⟩

theorem keeps_foldlM {β : Type} {f : Selects → β → Except Error Selects}
    (h : ∀ x, Keeps d (f · x)) (xs : List β) : Keeps d fun selects => xs.foldlM f selects := by
  induction xs with
  | nil => exact keeps_ok d
  | cons x xs ih =>
    intro selects selects' ht hs
    obtain ⟨middle, hx, hs⟩ := exists_of_bind_eq_ok hs
    exact ih middle selects' (h x selects middle ht hx) hs

theorem keeps_register (name : String) (directive : NodeId) :
    Keeps d (register strict d name directive) := by
  intro selects selects' ht hs
  unfold register at hs
  split at hs
  · next text htext =>
    obtain ⟨path, hpath, hs⟩ := exists_of_bind_eq_ok hs
    cases hs
    intro m hm
    rcases List.mem_cons.mp hm with rfl | hm
    · rw [htext, eq_compile_of_readPath hpath]
      rfl
    · exact ht m hm
  · cases hs

theorem keeps_collectApply (directive : NodeId) : Keeps d (collectApply strict d directive) := by
  unfold collectApply
  split
  · split
    · exact keeps_error d _
    · exact keeps_register _ directive
  · exact keeps_register _ directive

theorem keeps_collectValueOf (directive : NodeId) :
    Keeps d (collectValueOf strict d directive) := by
  unfold collectValueOf
  split
  · exact keeps_register _ directive
  · exact keeps_foldlM (fun part => keeps_register _ part) _
  · exact keeps_error d _

theorem keeps_collect (fuel : Nat) (spec : NodeId) : Keeps d (collect strict d fuel spec) := by
  induction fuel generalizing spec with
  | zero => exact keeps_ok d
  | succ fuel ih =>
    intro selects selects' ht hs
    unfold collect at hs
    split at hs
    · exact keeps_ok d selects selects' ht hs
    · exact keeps_foldlM ih _ selects selects' ht hs
    · split at hs
      · exact keeps_collectApply _ selects selects' ht hs
      · split at hs
        · exact keeps_collectValueOf _ selects selects' ht hs
        · split at hs
          · exact keeps_register _ _ selects selects' ht hs
          · exact keeps_foldlM (fun (m : String × NodeId) => ih m.2) _ selects selects' ht hs

/-! ## Entries -/

section Entries

variable (hd : d.Forest)
include hd

theorem variableOf?_of_readVariable {entry declaration : NodeId} {v : Variable}
    (h : readVariable strict d entry declaration = .ok v) :
    variableOf? (d.tree declaration) = some v := by
  unfold readVariable at h
  split at h
  · cases h
  · next name hname =>
    split at h
    · cases h
    · next text htext =>
      obtain ⟨path, hpath, h⟩ := exists_of_bind_eq_ok h
      cases h
      rw [variableOf?, hd.textMember?_tree, hname, hd.textMember?_tree, htext,
        eq_compile_of_readPath hpath]
      rfl

theorem bindingOf?_of_readBinding {entry : NodeId} {declaration : Option NodeId}
    {binding : Option Variable} (h : readBinding strict d entry declaration = .ok binding) :
    bindingOf? (declaration.map d.tree) = some binding := by
  cases declaration with
  | none =>
    cases h
    rfl
  | some declaration =>
    obtain ⟨v, hv, h⟩ := exists_of_bind_eq_ok h
    cases h
    rw [Option.map_some, bindingOf?, variableOf?_of_readVariable hd hv]
    rfl

/-- What an accepted entry has as its template: its rule, in the same document. -/
theorem rule_of_readBody {entry body : NodeId} {t : Template} (ht : Told d selects)
    (h : readBody strict d entry body selects = .ok (t, selects')) :
    Rule.ofBody? (d.tree body) = some t.rule ∧ t.value.document = d ∧ Told d selects' := by
  unfold readBody at h
  split at h
  · cases h
  · next text htext =>
    obtain ⟨pattern, hpattern, h⟩ := exists_of_bind_eq_ok h
    obtain ⟨binding, hbinding, h⟩ := exists_of_bind_eq_ok h
    obtain ⟨path, hpath, hp⟩ := Document.exists_of_map_eq_ok (eq_ok_of_mapError_eq_ok hpattern)
    split at h
    · cases h
    · next value hvalue =>
      obtain ⟨selects₁, hcollect, h⟩ := exists_of_bind_eq_ok h
      cases h
      refine ⟨?_, rfl, keeps_collect _ value selects _ ht hcollect⟩
      rw [Rule.ofBody?, hd.textMember?_tree, htext, hd.member?_tree, hd.member?_tree, hvalue,
        bindingOf?_of_readBinding hd hbinding, ← hp, Path.eq_compile_of_compileWith hpath]
      rfl

theorem rule_of_readEntry {entry : NodeId} {t : Template} (ht : Told d selects)
    (h : readEntry strict d entry selects = .ok (t, selects')) :
    Rule.ofEntry? (d.tree entry) = some t.rule ∧ t.value.document = d ∧ Told d selects' := by
  unfold readEntry at h
  split at h
  · cases h
  · next body hbody =>
    obtain ⟨hrule, hdocument, ht'⟩ := rule_of_readBody hd ht h
    refine ⟨?_, hdocument, ht'⟩
    rw [Rule.ofEntry?, hd.member?_tree, (Option.filter_eq_some_iff.mp hbody).1]
    exact hrule

theorem rules_of_readEntries {entries : List NodeId} {ts : List Template} (ht : Told d selects)
    (h : readEntries strict d entries selects = .ok (ts, selects')) :
    (entries.map d.tree).mapM Rule.ofEntry? = some (ts.map rule) ∧
      (∀ t ∈ ts, t.value.document = d) ∧ Told d selects' := by
  induction entries generalizing ts selects with
  | nil =>
    cases h
    refine ⟨rfl, ?_, ht⟩
    intro t ht
    cases ht
  | cons entry rest ih =>
    unfold readEntries at h
    obtain ⟨⟨t, selects₁⟩, hentry, h⟩ := exists_of_bind_eq_ok h
    obtain ⟨⟨ts, selects₂⟩, hrest, h⟩ := exists_of_bind_eq_ok h
    cases h
    obtain ⟨hrule, hdocument, ht₁⟩ := rule_of_readEntry hd ht hentry
    obtain ⟨hrules, hdocuments, ht₂⟩ := ih ht₁ hrest
    refine ⟨?_, ?_, ht₂⟩
    · rw [List.map_cons, List.mapM_cons, hrule, hrules]
      rfl
    · simpa using ⟨hdocument, hdocuments⟩

/-- The templates of an accepted document are its rules, and their selections are told. -/
theorem rules?_of_readAll {ts : List Template} (h : readAll strict d = .ok (ts, selects)) :
    rules? d.toTree = some (ts.map rule) ∧ (∀ t ∈ ts, t.value.document = d) ∧ Told d selects := by
  unfold readAll at h
  split at h
  · cases h
  · rw [rules?, Document.toTree, hd.children_tree]
    exact rules_of_readEntries hd (told_nil d) h

end Entries

end Template

end Reshape
