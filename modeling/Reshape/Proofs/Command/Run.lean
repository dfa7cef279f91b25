import Reshape.Command.FileTree
import Reshape.Proofs.Command.Arguments
import Reshape.Proofs.Document.RoundTrip
import Reshape.Proofs.Text.Utf8

/-!
# Runs of the command and the library

A command reads its files first, computes, and writes last. What it computes is what the library
makes of the texts in the files, though it reads them in another order: the source comes before the
options and the templates. So a run succeeds if the library does, and a run that fails has not
written anything.

## Main definitions

* `Command.options?`: the options of a run.
* `Command.library`: what the library makes of texts.
* `Command.Arguments.inputs`: the files that are read.
* `Command.FileTree.Holds`: files that hold texts.
* `Command.FileTree.still`: access that changes nothing.

## Main statements

* `Document.parseBytes_encode`: the document in a file is that of its text.
* `Command.library_eq_transformText`: rendering without options.
* `Command.result_host`: until a run has its result, the files stay as they are.
* `Command.result_still`: a run makes what the library makes of the texts.
* `Command.exists_run_eq_runTask`: what can be run.
* `Command.run_eq_of_exitCode_ne_zero`: a run that fails has not written anything.
* `Command.run_library`: a run does what the library does.
-/

namespace Reshape

/-! ## Results without errors -/

section Options

variable {ε ε' α β : Type}

theorem toOption_mapError (f : ε → ε') (x : Except ε α) : (x.mapError f).toOption = x.toOption := by
  cases x <;> rfl

theorem toOption_bind (x : Except ε α) (f : α → Except ε β) :
    (x >>= f).toOption = x.toOption.bind fun a => (f a).toOption := by
  cases x <;> rfl

theorem toOption_map (f : α → β) (x : Except ε α) : (f <$> x).toOption = f <$> x.toOption := by
  cases x <;> rfl

end Options

/-- A text without a byte order mark in front is read from its bytes. -/
theorem Document.parseBytes_encode {text : String} (h : text.toList.head? ≠ some '\uFEFF') :
    parseBytes (Command.FileTree.encode text) = parseSource text := by
  rw [parseBytes, Command.FileTree.encode, Utf8.dropMark_toUTF8 h, Utf8.decode_toUTF8]
  rfl

namespace Command

/-! ## The library -/

/-- The options in a text, or the standard ones without a text. They are also strict on demand. -/
def options? (strict : Bool) (text : Option String) : Option Config :=
  (text.elim (some Config.standard) Config.read?).map fun c =>
    { c with strict := c.strict || strict }

/-- What the library makes of the texts that stand under the names of files, if nothing fails: it
compiles the path or the templates first and reads the source last. -/
def library (a : Arguments) (text : String → String) : Option (Option Document) :=
  match a.task with
  | .render template => do
    let c ← options? a.strict (a.config.map text)
    let t ← (Transformer.ofText c (text template)).toOption
    (t.renderText (text a.source)).toOption
  | .select path => do
    let p ← (Path.compileWith a.strict path).toOption
    let source ← (Document.parseSource (text a.source)).toOption
    some <$> (selectDocument p source).toOption

/-- Without options this is the transformation between texts. -/
theorem library_eq_transformText {a : Arguments} {template : String}
    (htask : a.task = .render template) (hconfig : a.config = none) (hstrict : a.strict = false)
    (text : String → String) :
    library a text = (transformText (text template) (text a.source)).toOption := by
  rw [library, htask, hconfig, hstrict, transformText, toOption_mapError, toOption_bind]
  rfl

/-- The files that a run reads. Options are for rendering only. -/
def Arguments.inputs (a : Arguments) : List String :=
  match a.task with
  | .render template => a.source :: template :: a.config.toList
  | .select _ => [a.source]

/-- The files hold the encoded texts, without byte order marks. -/
def FileTree.Holds (t : FileTree) (files : List String) (text : String → String) : Prop :=
  ∀ file ∈ files, t.read file = .ok (encode (text file)) ∧
    (text file).toList.head? ≠ some '\uFEFF'

/-! ## Reading -/

/-- What a run does after its first part. -/
theorem bind_eq {α β : Type} {x : StateM FileTree α} {f : α → StateM FileTree β} {v : α}
    {t u : FileTree} (h : x t = (v, u)) : (x >>= f) t = f v u :=
  congrArg (fun r : α × FileTree => f r.1 r.2) h

/-- Access to a tree that stays as it is. -/
def FileTree.still (t : FileTree) : Host Id where
  read name := t.read name
  write _ _ := .ok ()

section Still

variable (t : FileTree) (a : Arguments)

theorem read_host (file : String) : FileTree.host.read file t = (t.read file, t) := rfl

theorem bind_id {α β : Type} (x : Id α) (f : α → Id β) : (x >>= f) = f x := rfl

theorem bind_read_still {β : Type} (file : String)
    (f : Except FileError (List UInt8) → Id β) : (t.still.read file >>= f) = f (t.read file) := rfl

theorem readDocument_host (file : String) :
    readDocument FileTree.host file t = (readDocument t.still file, t) := by
  rw [readDocument, bind_eq (read_host t file), readDocument, bind_read_still]
  rcases t.read file with e | bytes <;> rfl

theorem readConfig_host (file : String) :
    readConfig FileTree.host file t = (readConfig t.still file, t) := by
  rw [readConfig, bind_eq (read_host t file), readConfig, bind_read_still]
  rcases t.read file with e | bytes
  · rfl
  · dsimp only
    rcases Utf8.decode bytes with e | cs
    · rfl
    · dsimp only
      rcases Config.read? (.ofList cs) with _ | c <;> rfl

theorem loadConfig_host : loadConfig FileTree.host a t = (loadConfig t.still a, t) := by
  rw [loadConfig, loadConfig]
  rcases a.config with _ | file
  · rfl
  · dsimp only
    rw [bind_eq (readConfig_host t file), bind_id]
    rcases readConfig t.still file with e | c <;> rfl

theorem renderFile_host (template : String) (source : Document) :
    renderFile FileTree.host a template source t = (renderFile t.still a template source, t) := by
  rw [renderFile, bind_eq (loadConfig_host t a), renderFile, bind_id]
  rcases loadConfig t.still a with e | c
  · rfl
  · dsimp only
    rw [bind_eq (readDocument_host t template), bind_id]
    rcases readDocument t.still template with e | d <;> rfl

/-- Until a run has its result, the files stay as they are. -/
theorem result_host : result FileTree.host a t = (result t.still a, t) := by
  rw [result, bind_eq (readDocument_host t a.source), result, bind_id]
  rcases readDocument t.still a.source with e | source
  · rfl
  · dsimp only
    rcases a.task with template | path
    · dsimp only
      rw [bind_eq (renderFile_host t a template source)]
      rfl
    · rfl

variable {t a}

/-- A run ends at once if it has no result. -/
theorem runTask_of_error {e : Error} (h : (result t.still a).run = .error e) :
    runTask FileTree.host a t = (failed e, t) := by
  rw [runTask, bind_eq ((result_host t a).trans (congrArg (·, t) h))]
  rfl

/-- A run writes its result to its output, if no file is named for it. -/
theorem runTask_of_output {d : Option Document} (h : (result t.still a).run = .ok d)
    (houtput : a.output = none) :
    runTask FileTree.host a t = (⟨0, resultText a.pretty d, ""⟩, t) := by
  rw [runTask, bind_eq ((result_host t a).trans (congrArg (·, t) h)), houtput]
  rfl

/-- A run fails if its result cannot be written to the file that is named for it. -/
theorem runTask_of_write_error {d : Option Document} (h : (result t.still a).run = .ok d)
    {file : String} (houtput : a.output = some file) {e : FileError}
    (hwrite : t.write file (FileTree.encode (resultText a.pretty d)) = .error e) :
    runTask FileTree.host a t = (failed (.file e), t) := by
  have hhost : FileTree.host.write file (resultText a.pretty d) t = (.error e, t) := by
    simp only [FileTree.host, hwrite]
  rw [runTask, bind_eq ((result_host t a).trans (congrArg (·, t) h)), houtput]
  dsimp only
  rw [bind_eq hhost]
  rfl

/-- A run writes its result to the file that is named for it, and nothing else. -/
theorem runTask_of_write {d : Option Document} (h : (result t.still a).run = .ok d)
    {file : String} (houtput : a.output = some file) {u : FileTree}
    (hwrite : t.write file (FileTree.encode (resultText a.pretty d)) = .ok u) :
    runTask FileTree.host a t = (⟨0, "", ""⟩, u) := by
  have hhost : FileTree.host.write file (resultText a.pretty d) t = (.ok (), u) := by
    simp only [FileTree.host, hwrite]
  rw [runTask, bind_eq ((result_host t a).trans (congrArg (·, t) h)), houtput]
  dsimp only
  rw [bind_eq hhost]
  rfl

end Still

/-! ## What is read -/

section Values

variable {t : FileTree} {files : List String} {text : String → String}

theorem readDocument_still (h : t.Holds files text) {file : String} (hfile : file ∈ files) :
    readDocument t.still file = Document.parseSource (text file) := by
  rw [readDocument, bind_read_still, (h file hfile).1]
  exact Document.parseBytes_encode (h file hfile).2

theorem readConfig_still (h : t.Holds files text) {file : String} (hfile : file ∈ files) :
    (readConfig t.still file).run.toOption = Config.read? (text file) := by
  rw [readConfig, bind_read_still, (h file hfile).1]
  simp only [FileTree.encode, Utf8.decode_toUTF8, String.ofList_toList]
  rcases Config.read? (text file) with _ | c <;> rfl

variable {a : Arguments}

theorem loadConfig_still (h : t.Holds a.config.toList text) :
    (loadConfig t.still a).run.toOption = options? a.strict (a.config.map text) := by
  rcases hconfig : a.config with _ | file
  · rw [loadConfig, hconfig]
    rfl
  · rw [hconfig] at h
    rw [loadConfig, hconfig, Option.map_some, options?, Option.elim_some,
      ← readConfig_still h (List.mem_singleton_self file)]
    dsimp only
    rw [bind_id]
    rcases readConfig t.still file with e | c <;> rfl

/-- Rendering takes the options and the templates from the texts. -/
theorem renderFile_still {template : String} (h : t.Holds (template :: a.config.toList) text)
    (source : Document) :
    (renderFile t.still a template source).run.toOption =
      (options? a.strict (a.config.map text)).bind fun c =>
        (Transformer.ofText c (text template)).toOption.bind fun u =>
          (u.render source).toOption := by
  rw [renderFile, bind_id,
    ← loadConfig_still fun file hfile => h file (List.mem_cons_of_mem _ hfile)]
  rcases loadConfig t.still a with e | c
  · rfl
  · dsimp only
    rw [bind_id, readDocument_still h List.mem_cons_self]
    simp only [Transformer.ofText, toOption_bind, toOption_mapError]
    rcases Document.parseSource (text template) with e | d
    · rfl
    · exact toOption_bind _ _

theorem toOption_renderText (u : Transformer) (source : String) :
    (u.renderText source).toOption =
      (Document.parseSource source).toOption.bind fun d => (u.render d).toOption := by
  rw [Transformer.renderText, toOption_bind, toOption_mapError]

theorem toOption_selectPath (strict : Bool) (path : String) (source : Document) :
    (selectPath strict path source).toOption =
      (Path.compileWith strict path).toOption.bind fun p =>
        some <$> (selectDocument p source).toOption := by
  rw [selectPath, toOption_bind, toOption_mapError]
  exact congrArg _ (funext fun p => toOption_map some _)

/-- A run makes what the library makes of the texts in its files. -/
theorem result_still (h : t.Holds a.inputs text) :
    (result t.still a).run.toOption = library a text := by
  have hsource : a.source ∈ a.inputs := by
    unfold Arguments.inputs
    split <;> exact List.mem_cons_self
  rw [result, bind_id, readDocument_still h hsource, library]
  -- Whichever is read first, nothing comes of it without the source.
  rcases hparse : Document.parseSource (text a.source) with e | source
  · rcases a.task with template | path
    · simp only [toOption_renderText, hparse]
      simp [Except.toOption]
    · simp [Except.toOption]
  · rcases htask : a.task with template | path
    · have hfiles : t.Holds (template :: a.config.toList) text := fun file hfile => by
        rw [Arguments.inputs, htask] at h
        exact h file (List.mem_cons_of_mem _ hfile)
      simp only [toOption_renderText, hparse]
      exact (toOption_mapError _ _).trans (renderFile_still hfiles source)
    · exact toOption_selectPath a.strict path source

end Values

/-! ## Whole runs -/

theorem run_eq_runTask {args : List String} {a : Arguments} (h : Arguments.read? args = some a)
    (t : FileTree) : run FileTree.host args t = runTask FileTree.host a t := by
  rw [run, h]

/-- Every request for files with names can be run. -/
theorem exists_run_eq_runTask {a : Arguments} (h : a.Named) :
    ∃ args, ∀ t, run FileTree.host args t = runTask FileTree.host a t :=
  ⟨a.row, run_eq_runTask (Arguments.read?_row h)⟩

/-- A run that fails has not written anything, whatever its arguments and its files are. -/
theorem run_eq_of_exitCode_ne_zero {args : List String} {t : FileTree}
    (h : (run FileTree.host args t).1.exitCode ≠ 0) :
    (run FileTree.host args t).1.output = "" ∧ (run FileTree.host args t).2 = t := by
  rcases hargs : Arguments.read? args with _ | a
  · rw [run, hargs]
    exact ⟨rfl, rfl⟩
  · rw [run_eq_runTask hargs] at h ⊢
    rcases hresult : (result t.still a).run with e | d
    · rw [runTask_of_error hresult]
      exact ⟨rfl, rfl⟩
    · rcases houtput : a.output with _ | file
      · rw [runTask_of_output hresult houtput] at h
        exact absurd rfl h
      · rcases hwrite : t.write file (FileTree.encode (resultText a.pretty d)) with e | u
        · rw [runTask_of_write_error hresult houtput hwrite]
          exact ⟨rfl, rfl⟩
        · rw [runTask_of_write hresult houtput hwrite] at h
          exact absurd rfl h

/-- A run of the command does what the library does with the same texts. It succeeds if the library
does; then it writes the compact or the indented text of the result, or null for no content, and a
line feed, either as its output or to the file that is named for it. If it fails, it has written
nothing and every file is as before. -/
theorem run_library {args : List String} {a : Arguments} (hargs : Arguments.read? args = some a)
    {t : FileTree} {text : String → String} (hfiles : t.Holds a.inputs text)
    (hwritable : ∀ file ∈ a.output, ∀ bytes, ∃ u, t.write file bytes = .ok u) :
    let outcome : Outcome := (run FileTree.host args t).1
    let after : FileTree := (run FileTree.host args t).2
    (outcome.exitCode = 0 ↔ (library a text).isSome) ∧
    (∀ d, library a text = some d →
      let written :=
        (match d with
          | none => "null"
          | some d => if a.pretty then d.toPrettyJson 2 else d.toJson) ++ "\n"
      match a.output with
      | none => outcome.output = written ∧ after = t
      | some file => outcome.output = "" ∧ t.write file (FileTree.encode written) = .ok after ∧
          after.read file = .ok (FileTree.encode written)) ∧
    (outcome.exitCode ≠ 0 → outcome.exitCode = 1 ∧ outcome.output = "" ∧ after = t) := by
  have hlibrary := result_still hfiles
  simp only [run_eq_runTask hargs]
  rcases hresult : (result t.still a).run with e | d
  · rw [hresult] at hlibrary
    rw [runTask_of_error hresult, ← hlibrary]
    exact ⟨by simp [failed, Except.toOption], nofun, fun _ => ⟨rfl, rfl, rfl⟩⟩
  · rw [hresult] at hlibrary
    rcases houtput : a.output with _ | file
    · rw [runTask_of_output hresult houtput, ← hlibrary]
      refine ⟨by simp [Except.toOption], ?_, fun hne => absurd rfl hne⟩
      rintro _ ⟨⟩
      exact ⟨rfl, rfl⟩
    · obtain ⟨u, hu⟩ := hwritable file houtput (FileTree.encode (resultText a.pretty d))
      rw [runTask_of_write hresult houtput hu, ← hlibrary]
      refine ⟨by simp [Except.toOption], ?_, fun hne => absurd rfl hne⟩
      rintro _ ⟨⟩
      exact ⟨rfl, hu, FileTree.read_write hu⟩

namespace FileTree

variable {t : FileTree} {name : String}

/-- A name of one part leads into the working folder. -/
theorem locate_of_splitOn (hparts : name.splitOn "/" = [name]) (hzero : '\x00' ∉ name.toList)
    (hname : name ∉ ["", ".", ".."]) (hsize : name.utf8ByteSize ≤ longestPart) :
    t.locate name = .ok (.entry t.working name false) := by
  simp only [List.mem_cons, List.not_mem_nil, or_false, not_or] at hname
  obtain ⟨hne, hpoint, hpoints⟩ := hname
  have hlongest : longestPart ≤ longestName := by decide
  rw [locate, if_neg hzero, if_neg hne, if_neg (Nat.not_lt.mpr (hsize.trans hlongest)), hparts]
  simp [hne, hpoint, hpoints, bind, Except.bind, pure, Except.pure]

theorem read_of_locate (hname : t.locate name = .ok (.entry t.working name false))
    (hsize : name.utf8ByteSize ≤ longestPart) {bytes : List UInt8}
    (hfile : t.find? (t.working ++ [name]) = some (.file bytes)) : t.read name = .ok bytes := by
  have hle := Nat.not_lt.mpr hsize
  simp [read, hname, hle, hfile, bind, Except.bind]

theorem write_of_locate (hname : t.locate name = .ok (.entry t.working name false))
    (hsize : name.utf8ByteSize ≤ longestPart) (hfree : t.find? (t.working ++ [name]) = none)
    (bytes : List UInt8) :
    t.write name bytes = .ok (t.put (t.working ++ [name]) (.file bytes)) := by
  have hle := Nat.not_lt.mpr hsize
  simp [write, hname, hle, hfree, bind, Except.bind]

end FileTree

/-- A strict run that renders an array to a file, indented, and one whose path is malformed. -/
theorem run_library_files :
    let source := Tree.array [.leaf .null]
    let template := Tree.array [.object [("$template", .object
      [("$match", .leaf (.string "/")), ("$value", .array [.leaf (.boolean true)])])]]
    let t := FileTree.ofFiles
      [("s", FileTree.encode source.toJson), ("t", FileTree.encode template.toJson)]
    let rendered := run FileTree.host ["-t", "t", "--strict", "-po", "o", "s"] t
    let selected := run FileTree.host ["--select=a[]", "--strict", "s"] t
    rendered.1.exitCode = 0 ∧ rendered.1.output = "" ∧
      rendered.2.read "o" = .ok (FileTree.encode "[\n  true\n]\n") ∧
      selected.1.exitCode = 1 ∧ selected.1.output = "" ∧ selected.2 = t := by
  intro source template t rendered selected
  let text : String → String := fun file => if file = "s" then source.toJson else template.toJson
  let a : Arguments := ⟨"s", .render "t", some "o", none, true, true⟩
  let b : Arguments := ⟨"s", .select "a[]", none, none, false, true⟩
  have ha : Arguments.read? ["-t", "t", "--strict", "-po", "o", "s"] = some a := by decide +kernel
  have hb : Arguments.read? ["--select=a[]", "--strict", "s"] = some b := by decide +kernel
  have hlocate : ∀ name ∈ ["s", "t", "o"], t.locate name = .ok (.entry t.working name false) := by
    intro name hname
    simp only [List.mem_cons, List.not_mem_nil, or_false] at hname
    rcases hname with rfl | rfl | rfl <;>
    · refine FileTree.locate_of_splitOn ?_ (by decide) (by decide) (by decide)
      rw [String.splitOn, if_neg (by decide), String.splitOnAux, if_neg (by decide),
        if_neg (by decide +kernel), String.splitOnAux, if_pos (by decide +kernel)]
      decide +kernel
  have hsource : t.read "s" = .ok (FileTree.encode source.toJson) :=
    FileTree.read_of_locate (hlocate "s" (by simp)) (by decide) rfl
  have htemplate : t.read "t" = .ok (FileTree.encode template.toJson) :=
    FileTree.read_of_locate (hlocate "t" (by simp)) (by decide) rfl
  have hwrite := FileTree.write_of_locate (hlocate "o" (by simp)) (by decide) rfl
  have hmark : source.toJson.toList.head? ≠ some '\uFEFF' := by decide +kernel
  have hmark' : template.toJson.toList.head? ≠ some '\uFEFF' := by decide +kernel
  have hfiles : t.Holds a.inputs text := by
    intro file hfile
    simp only [Arguments.inputs, a, Option.toList_none, List.mem_cons, List.not_mem_nil,
      or_false] at hfile
    rcases hfile with rfl | rfl
    · exact ⟨hsource, hmark⟩
    · exact ⟨htemplate, hmark'⟩
  have hlibrary : (library a text).map (resultText true) = some "[\n  true\n]\n" := by
    have hs : Document.parseSource (text a.source) = .ok (.ofReading source) := by
      rw [Document.parseSource, show text a.source = source.toJson from rfl,
        Document.parse_toJson_of_depth_le (by decide)]
      rfl
    have ht : Document.parseSource (text "t") = .ok (.ofReading template) := by
      rw [Document.parseSource, show text "t" = template.toJson from rfl,
        Document.parse_toJson_of_depth_le (by decide)]
      rfl
    simp only [library, a, Transformer.ofText, Transformer.renderText, hs, ht]
    decide +kernel
  have hmalformed : library b text = none := by
    have hpath : (Path.compileWith true "a[]").toOption = none := by decide +kernel
    simp only [library, b, hpath]
    rfl
  obtain ⟨d, hd, hwritten⟩ := Option.map_eq_some_iff.mp hlibrary
  have hwritable : ∀ file ∈ a.output, ∀ bytes, ∃ u, t.write file bytes = .ok u := by
    rintro _ ⟨⟩ bytes
    exact ⟨_, hwrite bytes⟩
  obtain ⟨hexit, hresult, -⟩ := run_library ha hfiles hwritable
  have hsourceOnly : t.Holds b.inputs text := fun file hfile =>
    hfiles file (List.mem_cons.mpr (.inl (List.mem_singleton.mp hfile)))
  obtain ⟨hexit', -, hfailed⟩ := run_library hb hsourceOnly nofun
  have hne : selected.1.exitCode ≠ 0 := fun hzero => by
    simpa [hmalformed] using hexit'.mp hzero
  refine ⟨hexit.mpr (by rw [hd]; rfl), (hresult d hd).1, ?_, hfailed hne⟩
  rw [← hwritten]
  exact (hresult d hd).2.2

end Command

end Reshape
