import Reshape.Command.Arguments
import Reshape.Command.Error

/-!
# Running a command

A command reads a source and perhaps options and templates, and writes one text, either as its
output or to a file. Everything is read and computed before anything is written.

## Main definitions

* `Command.Host`: the files that a command sees.
* `Command.result`: the text that a command makes.
* `Command.run`: a whole run, with exit code and outputs.
-/

namespace Reshape.Command

/-- Access to files. -/
structure Host (m : Type → Type) where
  read : String → m (Except FileError (List UInt8))
  write : String → String → m (Except FileError Unit)

/-- What a run leaves beside files. -/
structure Outcome where
  exitCode : Nat
  output : String
  errors : String
deriving DecidableEq, Repr

variable {m : Type → Type} [Monad m]

/-- The document in a file. -/
def readDocument (h : Host m) (file : String) : m (Except Document.SourceError Document) := do
  match ← h.read file with
  | .error e => return .error (.file e)
  | .ok bytes => return Document.parseBytes bytes

/-- The options in a file, which is text without a mark in front. -/
def readConfig (h : Host m) (file : String) : m (Except Template.Error Config) := do
  match ← h.read file with
  | .error e => return .error (.file e)
  | .ok bytes =>
    match Utf8.decode bytes with
    | .error _ => return .error (.file (.other "stream did not contain valid UTF-8"))
    | .ok cs =>
      match Config.read? (.ofList cs) with
      | some c => return .ok c
      | none => return .error .options

/-- The options of a run: those in a file, if one is given, made strict if asked for. -/
def loadConfig (h : Host m) (a : Arguments) : m (Except Template.Error Config) := do
  match a.config with
  | none => return .ok { Config.standard with strict := a.strict }
  | some file =>
    match ← readConfig h file with
    | .error e => return .error e
    | .ok c => return .ok { c with strict := c.strict || a.strict }

/-- The document that the templates in a file make of a source. -/
def renderFile (h : Host m) (a : Arguments) (template : String) (source : Document) :
    m (Except Template.Error (Option Document)) := do
  match ← loadConfig h a with
  | .error e => return .error e
  | .ok c =>
    match ← readDocument h template with
    | .error e => return .error (.source e)
    | .ok d => return do
      let t ← Transformer.ofDocument c d
      t.render source

/-- The document that a path selects from a source. -/
def selectPath (strict : Bool) (path : String) (source : Document) :
    Except Error (Option Document) := do
  let p ← (Path.compileWith strict path).mapError .path
  some <$> selectDocument p source

/-- The document that a command makes, or no content. -/
def result (h : Host m) (a : Arguments) : m (Except Error (Option Document)) := do
  match ← readDocument h a.source with
  | .error e => return .error (.source e)
  | .ok source =>
    match a.task with
    | .select path => return selectPath a.strict path source
    | .render template => return (← renderFile h a template source).mapError .transform

/-- The text of a result: JSON on one line or indented by two, and a line feed. -/
def resultText (pretty : Bool) (d : Option Document) : String :=
  (match d with
    | none => "null"
    | some d => if pretty then d.toPrettyJson 2 else d.toJson) ++ "\n"

/-- The end of a run that fails. -/
def failed (e : Error) : Outcome := ⟨1, "", "jxt: " ++ e.message ++ "\n"⟩

/-- How the command is used. -/
def usage : String :=
  "usage: jxt SOURCE (-t FILE | -s PATH) [-o FILE] [-c FILE] [-p] [--strict]\n"

/-- A whole run of what the arguments ask for. -/
def runTask (h : Host m) (a : Arguments) : m Outcome := do
  match ← result h a with
  | .error e => return failed e
  | .ok d =>
    match a.output with
    | none => return ⟨0, resultText a.pretty d, ""⟩
    | some file =>
      match ← h.write file (resultText a.pretty d) with
      | .error e => return failed (.file e)
      | .ok () => return ⟨0, "", ""⟩

/-- A whole run. Arguments that are not used correctly end it at once. -/
def run (h : Host m) (args : List String) : m Outcome :=
  match Arguments.read? args with
  | none => return ⟨2, "", usage⟩
  | some a => runTask h a

end Reshape.Command
