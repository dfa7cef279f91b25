import Reshape.Proofs.Template.Reading
import Reshape.Proofs.Tree.Members

/-!
# What templates mean

Rendering said as a function from trees to trees, without an arena: a template document is a list of
rules, and a spec is expanded by recursion on its tree. Only the source is still a document, since
selections go up as well as down in it.

The text of a path is read where it is used. Whether the options ask for well-formed paths makes no
difference here, because a document with other paths is not accepted then.

## Main definitions

* `Template.Rule`, `Template.rules?`: the rules that the tree of a template document describes.
* `Template.Setting`: what a spec is expanded with.
* `Template.Setting.expand`: the content of a spec.
* `Template.meaning`: what the rules make of a node.
-/

namespace Reshape

/-- The text of a member that is a string. -/
def Tree.textMember? (t : Tree Scalar) (name : String) : Option String :=
  match (t.member? name).bind leaf? with
  | some (.string s) => some s
  | _ => none

/-- The truth value that a tree is. -/
def Tree.boolean? (t : Tree Scalar) : Option Bool :=
  match t.leaf? with
  | some (.boolean b) => some b
  | _ => none

/-- The elements of an array, or what the members of an object stand for. -/
def Tree.children : Tree Scalar → List (Tree Scalar)
  | leaf _ => []
  | array items => items
  | object ms => ms.map Prod.snd

namespace Template

/-! ## Rules -/

/-- A template as its entry describes it. -/
structure Rule where
  pattern : Pattern
  binding : Option Variable
  /-- The spec of the content. -/
  spec : Tree Scalar

/-- The pattern of a text. -/
def patternOf (text : String) : Pattern :=
  ⟨text, (Path.compile text).absolute, (Path.compile text).segments⟩

/-- The variable that a declaration introduces. -/
def variableOf? (declaration : Tree Scalar) : Option Variable := do
  let name ← declaration.textMember? "$name"
  let select ← declaration.textMember? "$select"
  return ⟨name, Path.compile select⟩

/-- The variable of a rule, if it declares one. -/
def bindingOf? : Option (Tree Scalar) → Option (Option Variable)
  | none => some none
  | some declaration => some <$> variableOf? declaration

/-- The rule in the body of an entry. -/
def Rule.ofBody? (body : Tree Scalar) : Option Rule := do
  let text ← body.textMember? "$match"
  let binding ← bindingOf? (body.member? "$variable")
  let spec ← body.member? "$value"
  return ⟨patternOf text, binding, spec⟩

/-- The rule of an entry. -/
def Rule.ofEntry? (entry : Tree Scalar) : Option Rule := do
  let body ← entry.member? "$template"
  Rule.ofBody? body

/-- The rules of a template document, one for each child of the root. -/
def rules? (t : Tree Scalar) : Option (List Rule) := t.children.mapM Rule.ofEntry?

/-! ## Specs -/

/-- What is made of a node or of a spec: a tree, no content, or a failure. -/
abbrev Outcome := Except Error (Option (Tree Scalar))

section Contents

variable {α : Type} (make : α → Outcome)

/-- What is made of each, without the absent ones, or the first failure. -/
def contents : List α → Except Error (List (Tree Scalar))
  | [] => .ok []
  | a :: rest => do
    let content ← make a
    let others ← contents rest
    return content.toList ++ others

/-- What is made of each under its name, without the absent ones, or the first failure. -/
def namedContents : List (String × α) → Except Error (List (String × Tree Scalar))
  | [] => .ok []
  | (name, a) :: rest => do
    let content ← make a
    let others ← namedContents rest
    return content.toList.map (name, ·) ++ others

variable {make} {β : Type}

theorem contents_map (f : β → α) (bs : List β) :
    contents make (bs.map f) = contents (fun b => make (f b)) bs := by
  induction bs with
  | nil => rfl
  | cons b rest ih => rw [List.map_cons, contents, contents, ih]

theorem namedContents_map (f : β → α) (ms : List (String × β)) :
    namedContents make (ms.map fun m => (m.1, f m.2)) =
      namedContents (fun b => make (f b)) ms := by
  induction ms with
  | nil => rfl
  | cons m rest ih => rw [List.map_cons, namedContents, namedContents, ih]

/-- The names are those of what has content, in the same order. -/
theorem names_namedContents {ms : List (String × α)} {ns : List (String × Tree Scalar)}
    (h : namedContents make ms = .ok ns) : (Members.names ns).Sublist (Members.names ms) := by
  induction ms generalizing ns with
  | nil =>
    cases h
    exact .refl _
  | cons m rest ih =>
    obtain ⟨content, -, h⟩ := exists_of_bind_eq_ok h
    obtain ⟨others, hothers, h⟩ := exists_of_bind_eq_ok h
    cases h
    cases content with
    | none => exact (ih hothers).cons _
    | some t => exact (ih hothers).cons_cons _

end Contents

/-- What a spec is expanded with: the source and the node in it, the variables that are bound, and
what templates make of other nodes. -/
structure Setting where
  strict : Bool
  source : Document
  node : NodeId
  bindings : Option (Tree Scalar)
  apply : NodeId → Outcome

namespace Setting

variable (s : Setting)

/-- The path that a directive selects by. An accepted directive has a text for it. -/
def pathOf (directive : Tree Scalar) : Path :=
  Path.compile ((directive.textMember? "$select").getD "")

/-- The nodes that a directive selects. -/
def select (directive : Tree Scalar) : List NodeId :=
  s.source.select s.bindings (pathOf directive) s.node

/-- The tree below the first node that a directive selects. -/
def first? (directive : Tree Scalar) : Option (Tree Scalar) :=
  (s.select directive).head?.map s.source.tree

/-- What templates make of the selection of a directive: an array, unless the directive asks for a
single node and selects one. -/
def applied (directive : Tree Scalar) : Outcome :=
  match ((directive.member? "$array").bind Tree.boolean?).getD true, s.select directive with
  | false, [id] => s.apply id
  | _, ids => do return some (.array (← contents s.apply ids))

/-- The text that a part of a composed value contributes. -/
def partText (part : Tree Scalar) : String :=
  match part with
  | .leaf v => v.toText
  | .array _ => ""
  | .object _ => ((s.first? part).map Tree.string).getD ""

/-- The first node selected, or null; or the text that is composed of parts. -/
def valueOf (directive : Tree Scalar) : Tree Scalar :=
  match directive with
  | .array parts => .leaf (.string (String.join (parts.map s.partText)))
  | _ => (s.first? directive).getD (.leaf .null)

/-- The first node selected, or no content. -/
def copyOf (directive : Tree Scalar) : Outcome :=
  match s.first? directive with
  | some t => .ok (some t)
  | none => if s.strict then .error (.emptySelection (pathOf directive)) else .ok none

mutual

/-- The content of a spec. An object is a directive by the first of three names that it has; any
other spec is expanded part by part, and parts without content are left out. -/
def expand : Tree Scalar → Outcome
  | .leaf v => .ok (some (.leaf v))
  | .array items => do return some (.array (← expandItems items))
  | .object ms =>
    match Members.find? ms "$apply-template" with
    | some directive => s.applied directive
    | none =>
      match Members.find? ms "$value-of" with
      | some directive => .ok (some (s.valueOf directive))
      | none =>
        match Members.find? ms "$copy-of" with
        | some directive => s.copyOf directive
        | none => do return some (.object (← expandMembers ms))

/-- The contents of elements. -/
def expandItems : List (Tree Scalar) → Except Error (List (Tree Scalar))
  | [] => .ok []
  | t :: rest => do
    let content ← expand t
    let others ← expandItems rest
    return content.toList ++ others

/-- The contents of members, under their names. -/
def expandMembers : List (String × Tree Scalar) → Except Error (List (String × Tree Scalar))
  | [] => .ok []
  | (name, t) :: rest => do
    let content ← expand t
    let others ← expandMembers rest
    return content.toList.map (name, ·) ++ others

end

theorem expandItems_eq (ts : List (Tree Scalar)) : s.expandItems ts = contents s.expand ts := by
  induction ts with
  | nil => rfl
  | cons t rest ih => rw [expandItems, contents, ih]

theorem expandMembers_eq (ms : List (String × Tree Scalar)) :
    s.expandMembers ms = namedContents s.expand ms := by
  induction ms with
  | nil => rfl
  | cons m rest ih => rw [expandMembers, namedContents, ih]

end Setting

/-! ## Nodes -/

section Nodes

variable (rules : List Rule) (c : Config) (source : Document)

/-- What a variable stands for at a node: the first node selected, or null. -/
def variableAt (id : NodeId) (v : Variable) : Except Error (Tree Scalar) :=
  match (source.select none v.select id).head? with
  | some n => .ok (source.tree n)
  | none => if c.strict then .error (.emptySelection v.select) else .ok (.leaf .null)

/-- The variables that a rule binds at a node. -/
def bindingsAt (id : NodeId) : Option Variable → Except Error (Option (Tree Scalar))
  | none => .ok none
  | some v => do
    let value ← variableAt c source id v
    return some (.object [(v.name, value)])

/-- What the rules make of a node, where `left` applications may still be inside each other: the
first rule whose pattern describes the address of the node expands its spec. -/
def meaning (left : Nat) (id : NodeId) : Outcome :=
  match rules.find? (·.pattern.holds (source.address id)) with
  | none => if c.strict then .error (.noMatch (source.address id)) else .ok none
  | some rule =>
    match left with
    | 0 => .error (.tooDeep c.maxDepth)
    | left + 1 => do
      let bindings ← bindingsAt c source id rule.binding
      Setting.expand ⟨c.strict, source, id, bindings, meaning left⟩ rule.spec

end Nodes

end Template

end Reshape
