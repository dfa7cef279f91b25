import Reshape.Template.Basic

/-!
# Reading templates

The templates in a document: every child of the root is an entry that holds one. Whatever a spec
will select is compiled here, once, and kept under the number of the directive that holds it.

## Main definitions

* `Template.collect`: the selections in a spec.
* `Template.readEntry`: the template in an entry.
* `Template.readAll`: the templates of a document.
-/

namespace Reshape

/-- The text of a member that is a string. -/
def Document.textMember? (d : Document) (id : NodeId) (name : String) : Option String :=
  match (d.childByName? id name).bind d.scalar? with
  | some (.string s) => some s
  | _ => none

/-- The truth value of a value node. -/
def Document.boolean? (d : Document) (id : NodeId) : Option Bool :=
  match d.scalar? id with
  | some (.boolean b) => some b
  | _ => none

namespace Template

/-- The path of a text; strictly, it has to be well formed. -/
def readPath (strict : Bool) (text : String) : Except Error Path :=
  (Path.compileWith strict text).mapError .path

/-! ## Selections -/

section Collecting

variable (strict : Bool) (d : Document)

/-- The path that a directive selects by is compiled. -/
def register (name : String) (directive : NodeId) (selects : Selects) : Except Error Selects :=
  match d.textMember? directive "$select" with
  | some text => do
    let path ← readPath strict text
    return (directive, path) :: selects
  | none => .error (.invalid (.noSelect name (d.tree directive)))

/-- The selection of a directive that applies templates. Its switch has to be a truth value. -/
def collectApply (directive : NodeId) (selects : Selects) : Except Error Selects :=
  match d.childByName? directive "$array" with
  | some flag =>
    if (d.boolean? flag).isNone then .error (.invalid (.badSwitch (d.tree directive)))
    else register strict d "$apply-template" directive selects
  | none => register strict d "$apply-template" directive selects

/-- The selection of a directive that makes a value, or those of its parts. -/
def collectValueOf (directive : NodeId) (selects : Selects) : Except Error Selects :=
  match d.content directive with
  | .object _ => register strict d "$value-of" directive selects
  | .array parts =>
    (parts.filter (d.shape · = .object)).foldlM
      (fun selects part => register strict d "$value-of" part selects) selects
  | .value _ => .error (.invalid (.badValue (d.tree directive)))

/-- The selections in a spec, which is followed down `fuel` levels. An object is a directive by the
first of three names that it has, and nothing else in it is looked at. -/
def collect : Nat → NodeId → Selects → Except Error Selects
  | 0, _, selects => .ok selects
  | fuel + 1, spec, selects =>
    match d.content spec with
    | .value _ => .ok selects
    | .array items => items.foldlM (fun selects item => collect fuel item selects) selects
    | .object ms =>
      match Members.find? ms "$apply-template" with
      | some directive => collectApply strict d directive selects
      | none =>
        match Members.find? ms "$value-of" with
        | some directive => collectValueOf strict d directive selects
        | none =>
          match Members.find? ms "$copy-of" with
          | some directive => register strict d "$copy-of" directive selects
          | none => ms.foldlM (fun selects m => collect fuel m.2 selects) selects

end Collecting

/-! ## Entries -/

section Entries

variable (strict : Bool) (d : Document) (entry : NodeId)

/-- An entry is no template. -/
def refuse {α : Type} (fault : EntryFault) : Except Error α :=
  .error (.invalid (.entry (d.key entry) fault))

/-- The variable that a declaration introduces. -/
def readVariable (declaration : NodeId) : Except Error Variable :=
  match d.textMember? declaration "$name" with
  | none => refuse d entry .noVariableName
  | some name =>
    match d.textMember? declaration "$select" with
    | none => refuse d entry .noVariableSelect
    | some select => return ⟨name, ← readPath strict select⟩

/-- The variable of a template, if it declares one. -/
def readBinding : Option NodeId → Except Error (Option Variable)
  | none => .ok none
  | some declaration => some <$> readVariable strict d entry declaration

/-- The template in the body of an entry, and what it selects added to `selects`. -/
def readBody (body : NodeId) (selects : Selects) : Except Error (Template × Selects) :=
  match d.textMember? body "$match" with
  | none => refuse d entry .noPattern
  | some text => do
    let pattern ← (Pattern.compile strict text).mapError .path
    let binding ← readBinding strict d entry (d.childByName? body "$variable")
    match d.childByName? body "$value" with
    | none => refuse d entry .noValue
    | some value => do
      let selects ← collect strict d d.nodes.size value selects
      return (⟨pattern, binding, ⟨d, value⟩⟩, selects)

/-- The template in an entry. -/
def readEntry (selects : Selects) : Except Error (Template × Selects) :=
  match (d.childByName? entry "$template").filter (d.shape · = .object) with
  | none => refuse d entry .noTemplate
  | some body => readBody strict d entry body selects

end Entries

/-- The templates in entries. -/
def readEntries (strict : Bool) (d : Document) :
    List NodeId → Selects → Except Error (List Template × Selects)
  | [], selects => .ok ([], selects)
  | entry :: rest, selects => do
    let (template, selects) ← readEntry strict d entry selects
    let (templates, selects) ← readEntries strict d rest selects
    return (template :: templates, selects)

/-- The templates of a document, in document order, and what they select. -/
def readAll (strict : Bool) (d : Document) : Except Error (List Template × Selects) :=
  match d.content d.root with
  | .value _ => .error (.invalid .scalar)
  | c => readEntries strict d c.children []

end Template

end Reshape
