import Reshape.Template.Render

/-!
# Failures of a command

Why a command as a whole fails: the source cannot be read, the path is not well formed, the
transformation fails, or a file cannot be written.

## Main definitions

* `Command.Error`: the failures and their wording.
* `Command.transformText`: a transformation between texts with the standard options.
* `Command.selectDocument`: a selection as a document.
-/

namespace Reshape.Command

/-- Why a command fails. -/
inductive Error where
  | transform (e : Template.Error)
  | source (e : Document.SourceError)
  | path (e : Path.MalformedStep)
  | tree (e : Document.EditError)
  | file (e : FileError)

/-- The wording of a failure. -/
def Error.message : Error → String
  | transform e => "Transformation failed: " ++ e.message
  | source e => "Parsing failed: " ++ e.message
  | path e => "Invalid path: " ++ e.message
  | tree e => "Output tree error: " ++ e.message
  | file e => e.message

/-- What the templates in a text make of the source in a text, with the standard options. -/
def transformText (template source : String) : Except Error (Option Document) :=
  (do
    let t ← Transformer.ofText .standard template
    t.renderText source : Except Template.Error (Option Document)).mapError .transform

/-- Copies of the nodes that a path selects from the root of a document, in an array. -/
def selectDocument (p : Path) (d : Document) : Except Error Document :=
  (d.selectDocument p).mapError .tree

end Reshape.Command
