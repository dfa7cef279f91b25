import Reshape.Proofs.Template.Rules

/-!
# Accepted template documents

Whether a template document is accepted is a question about the trees of its entries, one by one.
No entry depends on another, nor on the numbers of nodes.

## Main definitions

* `Template.acceptsSpec`: directives in a spec have what they need.
* `Template.acceptsEntry`, `Template.accepts`: entries and documents.

## Main statements

* `Template.isOk_collect`, `Template.isOk_readEntry`: what is read from a spec and from an entry.
* `Transformer.isOk_ofDocument`.
-/

namespace Reshape

/-- Whether a tree is an object. -/
def Tree.isObject {α : Type} : Tree α → Bool
  | object _ => true
  | _ => false

/-! ## Steps with a result -/

section IsOk

variable {ε α β : Type}

theorem isOk_bind {x : Except ε α} {f : α → Except ε β} {b : Bool} (h : ∀ a, (f a).isOk = b) :
    (x >>= f).isOk = (x.isOk && b) := by
  rcases x with e | a
  · rfl
  · exact h a

theorem isOk_bind_ok (x : Except ε α) (f : α → β) : (x >>= fun a => .ok (f a)).isOk = x.isOk := by
  rcases x with e | a <;> rfl

theorem isOk_foldlM {f : β → α → Except ε β} {as : List α} {p : α → Bool}
    (h : ∀ a ∈ as, ∀ b, (f b a).isOk = p a) (b : β) : (as.foldlM f b).isOk = as.all p := by
  induction as generalizing b with
  | nil => rfl
  | cons a as ih =>
    rw [List.foldlM_cons, List.all_cons, ← h a List.mem_cons_self b]
    exact isOk_bind fun b => ih (fun x hx => h x (List.mem_cons_of_mem _ hx)) b

theorem isOk_mapError {ε' : Type} (f : ε → ε') (x : Except ε α) : (x.mapError f).isOk = x.isOk := by
  rcases x with e | a <;> rfl

theorem isOk_map (f : α → β) (x : Except ε α) : (x.map f).isOk = x.isOk := by
  rcases x with e | a <;> rfl

theorem isOk_iff {x : Except ε α} : x.isOk = true ↔ ∃ a, x = .ok a := by
  rcases x with e | a <;> simp [Except.isOk, Except.toBool]

end IsOk

namespace Template

/-! ## What is asked of trees -/

section Accepts

variable (strict : Bool)

/-- The text is that of a path; strictly, its steps are well formed. -/
def acceptsPath (text : String) : Bool := (Path.compileWith strict text).isOk

/-- There is a path to select by. -/
def acceptsSelect (t : Tree Scalar) : Bool := (t.textMember? "$select").any (acceptsPath strict)

/-- A directive that applies templates: if it has a switch, that is a truth value. -/
def acceptsApply (t : Tree Scalar) : Bool :=
  (t.member? "$array").all (·.boolean?.isSome) && acceptsSelect strict t

/-- A directive that makes a value. -/
def acceptsValueOf : Tree Scalar → Bool
  | .leaf _ => false
  | .array parts => (parts.filter Tree.isObject).all (acceptsSelect strict)
  | .object ms => acceptsSelect strict (.object ms)

mutual

/-- All directives that a spec comes to have what they need. -/
def acceptsSpec : Tree Scalar → Bool
  | .leaf _ => true
  | .array items => acceptsItems items
  | .object ms =>
    match Members.find? ms "$apply-template" with
    | some directive => acceptsApply strict directive
    | none =>
      match Members.find? ms "$value-of" with
      | some directive => acceptsValueOf strict directive
      | none =>
        match Members.find? ms "$copy-of" with
        | some directive => acceptsSelect strict directive
        | none => acceptsMembers ms

/-- So do those of elements. -/
def acceptsItems : List (Tree Scalar) → Bool
  | [] => true
  | t :: rest => acceptsSpec t && acceptsItems rest

/-- So do those of members. -/
def acceptsMembers : List (String × Tree Scalar) → Bool
  | [] => true
  | (_, t) :: rest => acceptsSpec t && acceptsMembers rest

end

/-- The declaration of a variable. -/
def acceptsVariable (t : Tree Scalar) : Bool :=
  (t.textMember? "$name").isSome && acceptsSelect strict t

/-- The body of an entry. -/
def acceptsBody (t : Tree Scalar) : Bool :=
  (t.textMember? "$match").any (acceptsPath strict) &&
    ((t.member? "$variable").all (acceptsVariable strict) &&
      (t.member? "$value").any (acceptsSpec strict))

/-- An entry: an object with a body. -/
def acceptsEntry (t : Tree Scalar) : Bool :=
  ((t.member? "$template").filter Tree.isObject).any (acceptsBody strict)

/-- A template document: an array or an object of entries. -/
def accepts (t : Tree Scalar) : Bool := t.leaf?.isNone && t.children.all (acceptsEntry strict)

variable {strict}

theorem acceptsItems_eq (ts : List (Tree Scalar)) :
    acceptsItems strict ts = ts.all (acceptsSpec strict) := by
  induction ts with
  | nil => rfl
  | cons t ts ih => rw [acceptsItems, List.all_cons, ih]

theorem acceptsMembers_eq (ms : List (String × Tree Scalar)) :
    acceptsMembers strict ms = ms.all fun m => acceptsSpec strict m.2 := by
  induction ms with
  | nil => rfl
  | cons m ms ih => rw [acceptsMembers, List.all_cons, ih]

end Accepts

/-! ## Reading -/

section Reading

open Document (tree_of_content_value tree_of_size_le)

variable {strict : Bool} {d : Document} {selects : Selects}

theorem isOk_readPath (text : String) : (readPath strict text).isOk = acceptsPath strict text :=
  isOk_mapError _ _

section Directives

variable (hd : d.Forest) (directive : NodeId)
include hd

theorem isOk_register (name : String) :
    (register strict d name directive selects).isOk = acceptsSelect strict (d.tree directive) := by
  rw [register, acceptsSelect, hd.textMember?_tree]
  rcases d.textMember? directive "$select" with _ | text
  · rfl
  · exact (isOk_bind_ok _ _).trans (isOk_readPath text)

theorem isOk_collectApply :
    (collectApply strict d directive selects).isOk = acceptsApply strict (d.tree directive) := by
  rw [collectApply, acceptsApply, hd.member?_tree]
  rcases d.childByName? directive "$array" with _ | flag
  · exact isOk_register hd directive _
  · rw [Option.map_some, Option.all_some, hd.boolean?_tree]
    rcases hflag : d.boolean? flag with _ | b
    · simp [hflag, Except.isOk, Except.toBool]
    · simp [hflag, isOk_register hd directive]

theorem isObject_tree : (d.tree directive).isObject = decide (d.shape directive = .object) := by
  rcases hc : d.content directive with v | items | ms
  · rw [tree_of_content_value hc, Document.shape, hc]
    rfl
  · rw [hd.tree_of_content_array hc, Document.shape, hc]
    rfl
  · rw [hd.tree_of_content_object hc, Document.shape, hc]
    rfl

theorem isOk_collectValueOf :
    (collectValueOf strict d directive selects).isOk =
      acceptsValueOf strict (d.tree directive) := by
  rcases hc : d.content directive with v | parts | ms
  · simp only [collectValueOf, hc, tree_of_content_value hc, acceptsValueOf]
    rfl
  · simp only [collectValueOf, hc, hd.tree_of_content_array hc, acceptsValueOf]
    rw [isOk_foldlM fun part _ selects => isOk_register hd part _, List.filter_map, List.all_map]
    simp only [Function.comp_def, isObject_tree hd]
  · have hregister : (register strict d "$value-of" directive selects).isOk =
      acceptsSelect strict (d.tree directive) := isOk_register hd directive _
    rw [hd.tree_of_content_object hc] at hregister
    simp only [collectValueOf, hc, hd.tree_of_content_object hc, acceptsValueOf, hregister]

end Directives

/-- What a spec selects is collected if the spec has what is needed, whatever was collected
before. -/
theorem isOk_collect (hd : d.Forest) {fuel : Nat} {spec : NodeId}
    (hfuel : d.nodes.size ≤ fuel + (d.ancestors spec).length) (selects : Selects) :
    (collect strict d fuel spec selects).isOk = acceptsSpec strict (d.tree spec) := by
  induction fuel generalizing spec selects with
  | zero =>
    -- Only a number that is not in use has that many ancestors.
    have hspec : d.nodes.size ≤ spec := by
      refine Nat.le_of_not_lt fun hlt => ?_
      have := hd.length_ancestors_lt hlt
      omega
    rw [tree_of_size_le hspec]
    rfl
  | succ fuel ih =>
    have hchild : ∀ c ∈ d.children spec, ∀ selects,
        (collect strict d fuel c selects).isOk = acceptsSpec strict (d.tree c) := by
      intro c hc selects
      have := hd.length_ancestors_of_mem_children hc
      exact ih (by omega) selects
    unfold Document.children at hchild
    rcases hc : d.content spec with v | items | ms
    · simp only [collect, hc, tree_of_content_value hc, acceptsSpec]
      rfl
    · rw [hc] at hchild
      simp only [collect, hc, hd.tree_of_content_array hc, acceptsSpec, acceptsItems_eq]
      exact (isOk_foldlM hchild selects).trans List.all_map.symm
    · rw [hc] at hchild
      have hfind : ∀ name, Members.find? (ms.map fun m => (m.1, d.tree m.2)) name =
        (Members.find? ms name).map d.tree := fun name => Members.find?_map d.tree ms name
      simp only [collect, hc, hd.tree_of_content_object hc, acceptsSpec, hfind]
      rcases Members.find? ms "$apply-template" with _ | directive
      · rcases Members.find? ms "$value-of" with _ | directive
        · rcases Members.find? ms "$copy-of" with _ | directive
          · simp only [Option.map_none, acceptsMembers_eq]
            have hms : ∀ m ∈ ms, ∀ selects, (collect strict d fuel m.2 selects).isOk =
              acceptsSpec strict (d.tree m.2) := fun m hm => hchild m.2 (List.mem_map_of_mem hm)
            rw [isOk_foldlM hms selects, List.all_map]
            rfl
          · exact isOk_register hd directive _
        · exact isOk_collectValueOf hd directive
      · exact isOk_collectApply hd directive

section Entries

variable (hd : d.Forest) (entry : NodeId)
include hd

theorem isOk_readVariable (declaration : NodeId) :
    (readVariable strict d entry declaration).isOk =
      acceptsVariable strict (d.tree declaration) := by
  rw [readVariable, acceptsVariable, acceptsSelect, hd.textMember?_tree, hd.textMember?_tree]
  rcases d.textMember? declaration "$name" with _ | name
  · rfl
  · rcases d.textMember? declaration "$select" with _ | select
    · rfl
    · exact (isOk_bind_ok _ _).trans (isOk_readPath select)

theorem isOk_readBinding (declaration : Option NodeId) :
    (readBinding strict d entry declaration).isOk =
      (declaration.map d.tree).all (acceptsVariable strict) := by
  rcases declaration with _ | declaration
  · rfl
  · exact (isOk_bind_ok _ _).trans (isOk_readVariable hd entry declaration)

theorem isOk_readBody (body : NodeId) :
    (readBody strict d entry body selects).isOk = acceptsBody strict (d.tree body) := by
  rw [readBody, acceptsBody, hd.textMember?_tree, hd.member?_tree, hd.member?_tree]
  rcases d.textMember? body "$match" with _ | text
  · rfl
  · have hpattern : ((Pattern.compile strict text).mapError Error.path).isOk =
        acceptsPath strict text := (isOk_mapError _ _).trans (isOk_map _ _)
    rw [Option.any_some, ← hpattern, ← isOk_readBinding hd entry]
    refine isOk_bind fun pattern => isOk_bind fun binding => ?_
    rcases d.childByName? body "$value" with _ | value
    · rfl
    · exact (isOk_bind_ok _ _).trans (isOk_collect hd (Nat.le_add_right _ _) selects)

theorem isOk_readEntry :
    (readEntry strict d entry selects).isOk = acceptsEntry strict (d.tree entry) := by
  have hfilter : ((d.tree entry).member? "$template").filter Tree.isObject =
      ((d.childByName? entry "$template").filter (d.shape · = .object)).map d.tree := by
    rw [hd.member?_tree]
    rcases d.childByName? entry "$template" with _ | body
    · rfl
    · by_cases hbody : d.shape body = .object <;>
        simp [Option.filter, isObject_tree hd, hbody]
  rw [readEntry, acceptsEntry, hfilter]
  rcases (d.childByName? entry "$template").filter (d.shape · = .object) with _ | body
  · rfl
  · exact isOk_readBody hd entry body

end Entries

theorem isOk_readEntries (hd : d.Forest) (entries : List NodeId) (selects : Selects) :
    (readEntries strict d entries selects).isOk =
      entries.all fun entry => acceptsEntry strict (d.tree entry) := by
  induction entries generalizing selects with
  | nil => rfl
  | cons entry rest ih =>
    have hentry : (readEntry strict d entry selects).isOk = acceptsEntry strict (d.tree entry) :=
      isOk_readEntry hd entry
    rw [readEntries, List.all_cons, ← hentry]
    exact isOk_bind fun r => (isOk_bind_ok _ _).trans (ih r.2)

/-- A document is read if its tree is accepted. -/
theorem isOk_readAll (hd : d.Forest) : (readAll strict d).isOk = accepts strict d.toTree := by
  rw [readAll, accepts, Document.toTree, hd.leaf?_tree, hd.children_tree, List.all_map,
    Document.scalar?, Document.children]
  rcases d.content d.root with v | items | ms
  · rfl
  · exact isOk_readEntries hd _ []
  · exact isOk_readEntries hd _ []

end Reading

end Template

/-- A template document is accepted if its tree is. -/
theorem Transformer.isOk_ofDocument {d : Document} (hd : d.Forest) (c : Config) :
    (ofDocument c d).isOk = Template.accepts c.strict d.toTree :=
  (isOk_bind_ok _ _).trans (Template.isOk_readAll hd)

end Reshape
