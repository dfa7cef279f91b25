import Reshape.Path.Select
import Reshape.Template.Config
import Reshape.Template.Read

/-!
# Rendering

What the templates make of a node. The first template whose pattern describes the address of the
node expands its spec into an arena of output nodes; whatever applies templates again does so with
one application less left. A spec without content leaves nothing in its container.

## Main definitions

* `Transformer`: templates and options.
* `Transformer.generate`: the content of a spec, given what further applications make.
* `Transformer.applyTo`: the content of a node, with a number of applications left.
* `Transformer.render`: the document that the templates make of a node.
-/

namespace Reshape

/-- Templates and options, ready to render any source. -/
structure Transformer where
  templates : List Template
  selects : Template.Selects
  config : Config

namespace Transformer

open Template (Error)

/-! ## Construction -/

/-- The transformer of a template document. -/
def ofDocument (c : Config) (d : Document) : Except Error Transformer := do
  let (templates, selects) ← Template.readAll c.strict d
  return ⟨templates, selects, c⟩

/-- The transformer of the text of a template document. -/
def ofText (c : Config) (text : String) : Except Error Transformer := do
  let d ← (Document.parseSource text).mapError .source
  ofDocument c d

/-- The transformer of the bytes of a template document. -/
def ofBytes (c : Config) (bytes : List UInt8) : Except Error Transformer := do
  let d ← (Document.parseBytes bytes).mapError .source
  ofDocument c d

/-! ## Containers -/

/-- Output nodes so far, and the node that was made, if there is content. -/
abbrev Content := Document × Option NodeId

/-- What is made of a node, of the source or of a spec, after the output so far. -/
abbrev Maker := Document → NodeId → Except Error Content

/-- What is made of nodes becomes elements of an array. -/
def pushEach (make : Maker) (out : Document) (array : NodeId) :
    List NodeId → Except Error Document
  | [] => .ok out
  | id :: rest => do
    let (out, content) ← make out id
    match content with
    | none => pushEach make out array rest
    | some c =>
      let out ← (out.pushElement array c).mapError .tree
      pushEach make out array rest

/-- An array of what is made of nodes. -/
def makeArray (make : Maker) (out : Document) (ids : List NodeId) : Except Error Content := do
  let (out, array) := out.alloc (.array [])
  let out ← pushEach make out array ids
  return (out, some array)

/-- What is made of nodes becomes members of an object. -/
def insertEach (make : Maker) (out : Document) (object : NodeId) :
    Members NodeId → Except Error Document
  | [] => .ok out
  | (name, id) :: rest => do
    let (out, content) ← make out id
    match content with
    | none => insertEach make out object rest
    | some c =>
      let (out, _) ← (out.insertField object name c).mapError .tree
      insertEach make out object rest

/-- An object of what is made of nodes. -/
def makeObject (make : Maker) (out : Document) (ms : Members NodeId) : Except Error Content := do
  let (out, object) := out.alloc (.object [])
  let out ← insertEach make out object ms
  return (out, some object)

/-! ## Directives -/

/-- What a spec is expanded with: the source, the node in it, and the variables that are bound. -/
structure Scope where
  source : Document
  node : NodeId
  bindings : Option (Tree Scalar)

section Directives

variable (t : Transformer) (s : Scope) (d : Document)

/-- The path that a directive of the template document selects by. -/
def pathOf (directive : NodeId) : Except Error Path :=
  match t.selects.lookup directive with
  | some path => .ok path
  | none => .error (.invalid (.notCompiled (d.tree directive)))

/-- The nodes that a directive selects. -/
def select (directive : NodeId) : Except Error (List NodeId) := do
  let path ← t.pathOf d directive
  return s.source.select s.bindings path s.node

/-- What templates make of a selection: an array of it, unless a single node is asked for and
selected. -/
def applyTemplate (apply : Maker) (out : Document) (directive : NodeId) : Except Error Content := do
  let selected ← t.select s d directive
  let asArray := ((d.childByName? directive "$array").bind d.boolean?).getD true
  match asArray, selected with
  | false, [id] => apply out id
  | _, _ => makeArray apply out selected

/-- A text with one part more: the text of a scalar, or that of the first node selected. -/
def addPart (text : String) (part : NodeId) : Except Error String :=
  match d.content part with
  | .object _ => do
    match (← t.select s d part).head? with
    | some n => return text ++ (s.source.tree n).string
    | none => return text
  | .value v => .ok (text ++ v.toText)
  | .array _ => .ok text

/-- A copy of the first node selected, or null; or a text composed of parts. -/
def valueOf (out : Document) (directive : NodeId) : Except Error (Document × NodeId) :=
  match d.content directive with
  | .object _ => do
    match (← t.select s d directive).head? with
    | some n => return out.addCopy (s.source.tree n)
    | none => return out.alloc (.value .null)
  | .array parts => do
    let text ← parts.foldlM (t.addPart s d) ""
    return out.alloc (.value (.string text))
  | .value _ => .error (.invalid (.badValue (d.tree directive)))

/-- A copy of the first node selected, or no content. -/
def copyOf (out : Document) (directive : NodeId) : Except Error Content := do
  match (← t.select s d directive).head? with
  | some n =>
    let (out, id) := out.addCopy (s.source.tree n)
    return (out, some id)
  | none =>
    if t.config.strict then
      let path ← t.pathOf d directive
      .error (.emptySelection path)
    else return (out, none)

/-- The content of a spec, which is followed down `fuel` levels; `apply` is what further
applications of templates make. -/
def generate (apply : Maker) : Nat → Maker
  | 0, out, _ =>
    let (out, id) := out.alloc (.value .null)
    .ok (out, some id)
  | fuel + 1, out, spec =>
    match d.content spec with
    | .value v =>
      let (out, id) := out.alloc (.value v)
      .ok (out, some id)
    | .array items => makeArray (generate apply fuel) out items
    | .object ms =>
      match Members.find? ms "$apply-template" with
      | some directive => t.applyTemplate s d apply out directive
      | none =>
        match Members.find? ms "$value-of" with
        | some directive => do
          let (out, id) ← t.valueOf s d out directive
          return (out, some id)
        | none =>
          match Members.find? ms "$copy-of" with
          | some directive => t.copyOf s d out directive
          | none => makeObject (generate apply fuel) out ms

end Directives

/-! ## Applications -/

/-- The first template whose pattern describes an address. -/
def find? (t : Transformer) (address : List String) : Option Template :=
  t.templates.find? (·.pattern.holds address)

/-- What a variable stands for, as a further node: a copy of the first node selected, or null. -/
def variableValue (t : Transformer) (source : Document) (id : NodeId) (v : Template.Variable)
    (vars : Document) : Except Error (Document × NodeId) :=
  match (source.select none v.select id).head? with
  | some n => .ok (vars.addCopy (source.tree n))
  | none =>
    if t.config.strict then .error (.emptySelection v.select)
    else .ok (vars.alloc (.value .null))

/-- The document of a variable: an object with one member. -/
def bindVariable (t : Transformer) (source : Document) (id : NodeId) (v : Template.Variable) :
    Except Error Document := do
  let (vars, value) ← t.variableValue source id v (.new (.object []))
  let (vars, _) ← (vars.insertField vars.root v.name value).mapError .tree
  return vars

/-- What a template binds at a node. -/
def bind (t : Transformer) (source : Document) (id : NodeId) :
    Option Template.Variable → Except Error (Option (Tree Scalar))
  | none => .ok none
  | some v => do
    let vars ← t.bindVariable source id v
    return some vars.toTree

/-- What the templates make of a node. `left` counts the applications that may still be inside
each other, this one included; a node without a template needs none. -/
def applyTo (t : Transformer) (source : Document) (left : Nat) : Maker := fun out id =>
  match t.find? (source.address id) with
  | none =>
    if t.config.strict then .error (.noMatch (source.address id)) else .ok (out, none)
  | some template =>
    match left with
    | 0 => .error (.tooDeep t.config.maxDepth)
    | left + 1 => do
      let bindings ← t.bind source id template.binding
      let d := template.value.document
      t.generate ⟨source, id, bindings⟩ d (t.applyTo source left) d.nodes.size out template.value.id

/-- The document that the templates make of a node, or no content. -/
def renderNode (t : Transformer) (source : Document) (id : NodeId) :
    Except Error (Option Document) := do
  let (out, content) ← t.applyTo source t.config.maxDepth (.new (.value .null)) id
  match content with
  | none => return none
  | some root => some <$> (out.setRoot root).mapError .tree

/-- The document that the templates make of the root of a source, or no content. -/
def render (t : Transformer) (source : Document) : Except Error (Option Document) :=
  t.renderNode source source.root

/-- The document that the templates make of a source given as text. -/
def renderText (t : Transformer) (text : String) : Except Error (Option Document) := do
  let source ← (Document.parseSource text).mapError .source
  t.render source

/-- The document that the templates make of a source given as bytes. -/
def renderBytes (t : Transformer) (bytes : List UInt8) : Except Error (Option Document) := do
  let source ← (Document.parseBytes bytes).mapError .source
  t.render source

end Transformer

end Reshape
