import Reshape.Document.Text
import Reshape.Template.Pattern

/-!
# Templates

A template says for which nodes it is meant and what they become: a pattern, optionally a variable,
and a spec of the content, which is a node of the template document. Some objects in a spec are
directives, which select nodes.

## Main definitions

* `Template`, `Template.Variable`: one template.
* `Template.Selects`: the paths that directives select by.
* `Template.Invalid`: why a document is no list of templates.
* `Template.Error`: why a transformation fails.
-/

namespace Reshape

/-- A name for the first node that a path selects. -/
structure Template.Variable where
  name : String
  select : Path
deriving DecidableEq, Repr

/-- A description of nodes and what they become. -/
structure Template where
  pattern : Pattern
  binding : Option Template.Variable
  /-- The spec of the content, in the template document. -/
  value : Document.Node

/-- The paths that directives select by, under the numbers of the directives in the template
document. -/
abbrev Template.Selects := List (NodeId × Path)

namespace Template

/-! ## Errors -/

/-- Why an entry is no template. -/
inductive EntryFault where
  | noTemplate
  | noPattern
  | noVariableName
  | noVariableSelect
  | noValue
deriving DecidableEq, Repr

/-- The wording of a faulty entry. -/
def EntryFault.message : EntryFault → String
  | noTemplate => "missing '$template' object"
  | noPattern => "'$match' must be a string"
  | noVariableName => "'$variable' needs a string '$name'"
  | noVariableSelect => "'$variable' needs a string '$select'"
  | noValue => "missing '$value'"

/-- Why a document is no list of templates. -/
inductive Invalid where
  /-- There is no document. -/
  | missing
  /-- The document is a scalar. -/
  | scalar
  | entry (key : Option String) (fault : EntryFault)
  /-- A directive whose switch is not a truth value. -/
  | badSwitch (directive : Tree Scalar)
  /-- A directive without the text of a path. -/
  | noSelect (name : String) (directive : Tree Scalar)
  /-- A value that is neither selected nor composed. -/
  | badValue (directive : Tree Scalar)
  /-- A directive whose path was not compiled. -/
  | notCompiled (directive : Tree Scalar)

/-- The wording of an invalid document. -/
def Invalid.message : Invalid → String
  | missing => "no template document was provided"
  | scalar => "the template document must be an array or an object of templates"
  | entry key fault =>
    "entry " ++ (match key with
      | some k => "'" ++ k ++ "'"
      | none => "the root") ++ ": " ++ fault.message
  | badSwitch t => "'$array' must be a boolean in " ++ t.toJson
  | noSelect name t => "'" ++ name ++ "' needs a string '$select', found " ++ t.toJson
  | badValue t => "'$value-of' must be an object or an array, found " ++ t.toJson
  | notCompiled t => "no compiled '$select' for " ++ t.toJson

/-- Why a transformation fails. -/
inductive Error where
  | source (e : Document.SourceError)
  | path (e : Path.MalformedStep)
  | tree (e : Document.EditError)
  | invalid (e : Invalid)
  | noMatch (address : List String)
  | emptySelection (select : Path)
  | tooDeep (limit : Nat)
  | options
  | file (e : FileError)

/-- The wording of a failed transformation. -/
def Error.message : Error → String
  | source e => "Document parse error: " ++ e.message
  | path e => "Path error: " ++ e.message
  | tree e => "Output tree error: " ++ e.message
  | invalid e => "Invalid template: " ++ e.message
  | noMatch address => "No template matches address '" ++ displayAddress address ++ "'"
  | emptySelection p => "Selection '" ++ p.display ++ "' matched no nodes"
  | tooDeep limit =>
    "Template recursion exceeded the limit of " ++ toString limit ++ " nested applications"
  | options => "Configuration error"
  | file e => e.message

end Template

end Reshape
