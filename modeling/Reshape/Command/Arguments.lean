/-!
# Arguments

The arguments of the command: one source, and options in long and short spelling. A short option
may be written together with its value or after flags; a long one may have its value behind an
equals sign. Everything behind two dashes alone is a source.

## Main definitions

* `Command.Task`, `Command.Arguments`: what the arguments ask for.
* `Command.Arguments.read?`: the reading of a row of arguments; nothing if they are not used
  correctly.
-/

namespace Reshape.Command

/-- What to do with the source. -/
inductive Task where
  /-- Render it with the templates in a file. -/
  | render (template : String)
  /-- Collect what a path selects. -/
  | select (path : String)
deriving DecidableEq, Repr

/-- What the arguments ask for. -/
structure Arguments where
  source : String
  task : Task
  output : Option String
  config : Option String
  pretty : Bool
  strict : Bool
deriving DecidableEq, Repr

namespace Arguments

/-- The options that have a value. -/
inductive Field where
  | template
  | select
  | output
  | config
deriving DecidableEq, Repr

/-- The options without a value. -/
inductive Flag where
  | pretty
  | strict
deriving DecidableEq, Repr

/-- An option of either sort. -/
inductive Switch where
  | field (f : Field)
  | flag (f : Flag)
deriving DecidableEq, Repr

/-- The option of a letter. -/
def ofLetter? : Char → Option Switch
  | 't' => some (.field .template)
  | 's' => some (.field .select)
  | 'o' => some (.field .output)
  | 'c' => some (.field .config)
  | 'p' => some (.flag .pretty)
  | _ => none

/-- The option of a name. -/
def ofName? (name : String) : Option Switch :=
  match name with
  | "template" => some (.field .template)
  | "select" => some (.field .select)
  | "output" => some (.field .output)
  | "config" => some (.field .config)
  | "pretty" => some (.flag .pretty)
  | "strict" => some (.flag .strict)
  | _ => none

/-- The arguments read so far. -/
structure Draft where
  source : Option String
  template : Option String
  select : Option String
  output : Option String
  config : Option String
  pretty : Bool
  strict : Bool
deriving DecidableEq, Repr

namespace Draft

/-- No argument at all. -/
def empty : Draft := ⟨none, none, none, none, none, false, false⟩

/-- A value that was not given yet; the name of a file is never empty. -/
def once? (old : Option String) (isFile : Bool) (value : String) : Option String :=
  match old with
  | some _ => none
  | none => if isFile ∧ value = "" then none else some value

/-- The draft with the value of an option. -/
def setField? (d : Draft) (f : Field) (value : String) : Option Draft :=
  match f with
  | .template => (once? d.template true value).map fun v => { d with template := some v }
  | .select => (once? d.select false value).map fun v => { d with select := some v }
  | .output => (once? d.output true value).map fun v => { d with output := some v }
  | .config => (once? d.config true value).map fun v => { d with config := some v }

/-- The draft with a flag. -/
def setFlag? (d : Draft) (f : Flag) : Option Draft :=
  match f with
  | .pretty => if d.pretty then none else some { d with pretty := true }
  | .strict => if d.strict then none else some { d with strict := true }

/-- The draft with the source. -/
def setSource? (d : Draft) (value : String) : Option Draft :=
  (once? d.source true value).map fun v => { d with source := some v }

/-- What a draft asks for: a source and exactly one task. -/
def finish? (d : Draft) : Option Arguments :=
  match d.source, d.template, d.select with
  | some source, some template, none =>
    some ⟨source, .render template, d.output, d.config, d.pretty, d.strict⟩
  | some source, none, some path =>
    some ⟨source, .select path, d.output, d.config, d.pretty, d.strict⟩
  | _, _, _ => none

end Draft

/-- What one argument contributes: a finished draft, or an option whose value is the next one. -/
inductive Progress where
  | done (d : Draft)
  | awaiting (f : Field) (d : Draft)
deriving DecidableEq, Repr

/-- Options written as letters. What follows a letter that needs a value is the value. -/
def readLetters? (d : Draft) : List Char → Option Progress
  | [] => some (.done d)
  | c :: rest =>
    match ofLetter? c with
    | none => none
    | some (.flag f) => (d.setFlag? f).bind fun d => readLetters? d rest
    | some (.field f) =>
      match rest with
      | [] => some (.awaiting f d)
      | '=' :: value => (d.setField? f (.ofList value)).map .done
      | value => (d.setField? f (.ofList value)).map .done

/-- An option written as a name, possibly with its value. -/
def readName? (d : Draft) (cs : List Char) : Option Progress :=
  let name := String.ofList (cs.takeWhile (· ≠ '='))
  match ofName? name, cs.dropWhile (· ≠ '=') with
  | none, _ => none
  | some (.flag f), [] => (d.setFlag? f).map .done
  | some (.flag _), _ => none
  | some (.field f), [] => some (.awaiting f d)
  | some (.field f), _ :: value => (d.setField? f (.ofList value)).map .done

/-- One argument in front of two dashes. -/
def readOne? (d : Draft) (arg : String) : Option Progress :=
  match arg.toList with
  | '-' :: '-' :: name => readName? d name
  | '-' :: c :: letters => readLetters? d (c :: letters)
  | _ => (d.setSource? arg).map .done

/-- Whether an argument can be the value of the option before it. -/
def isValue (arg : String) : Bool :=
  match arg.toList with
  | '-' :: _ :: _ => false
  | _ => true

/-- The arguments behind two dashes. -/
def readSources? (d : Draft) : List String → Option Draft
  | [] => some d
  | arg :: rest => (d.setSource? arg).bind fun d => readSources? d rest

/-- A row of arguments, in which `pending` is an option that awaits its value. -/
def readFrom? (d : Draft) (pending : Option Field) : List String → Option Draft
  | [] =>
    match pending with
    | some _ => none
    | none => some d
  | arg :: rest =>
    match pending with
    | some f =>
      if isValue arg then (d.setField? f arg).bind fun d => readFrom? d none rest else none
    | none =>
      if arg = "--" then readSources? d rest
      else
        match readOne? d arg with
        | none => none
        | some (.done d) => readFrom? d none rest
        | some (.awaiting f d) => readFrom? d (some f) rest

/-- What a row of arguments asks for, if they are used correctly. -/
def read? (args : List String) : Option Arguments :=
  (readFrom? .empty none args).bind Draft.finish?

end Arguments

end Reshape.Command
