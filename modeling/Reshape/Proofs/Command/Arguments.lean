import Reshape.Command.Arguments

/-!
# What arguments can ask for

Whatever a row of arguments asks for, the files in it have names that are not empty. Everything else
can be asked for: each option is written in long spelling, with its value behind an equals sign, and
the source behind two dashes, so that no value is taken for an option.

## Main definitions

* `Command.Arguments.Named`: requests for files with names.
* `Command.Arguments.row`: a row of arguments for a request.

## Main statements

* `Command.Arguments.named_of_read?`: only files with names are asked for.
* `Command.Arguments.read?_row`: the row is read as the request that it was written for.
* `Command.Arguments.exists_read?_iff`: what can be asked for.
-/

namespace Reshape.Command.Arguments

/-- None of the files has an empty name. The text of a path may be empty. -/
structure Named (a : Arguments) : Prop where
  source : a.source ≠ ""
  template : a.task ≠ .render ""
  output : a.output ≠ some ""
  config : a.config ≠ some ""

/-! ## What is read -/

namespace Draft

/-- None of the files so far has an empty name. -/
structure Named (d : Draft) : Prop where
  source : d.source ≠ some ""
  template : d.template ≠ some ""
  output : d.output ≠ some ""
  config : d.config ≠ some ""

theorem named_empty : empty.Named := ⟨nofun, nofun, nofun, nofun⟩

/-- The name of a file is not empty. -/
theorem ne_of_once? {old : Option String} {value v : String} (h : once? old true value = some v) :
    some v ≠ some "" := by
  unfold once? at h
  split at h
  · cases h
  · obtain ⟨hne, hv⟩ := Option.ite_none_left_eq_some.mp h
    exact hv ▸ fun he => hne ⟨rfl, Option.some.inj he⟩

namespace Named

variable {d d' : Draft} (h : d.Named)
include h

theorem setField? {f : Field} {value : String} (hd : d.setField? f value = some d') :
    d'.Named := by
  cases f with
  | template =>
    obtain ⟨v, hv, rfl⟩ := Option.map_eq_some_iff.mp hd
    exact ⟨h.source, ne_of_once? hv, h.output, h.config⟩
  | select =>
    obtain ⟨v, -, rfl⟩ := Option.map_eq_some_iff.mp hd
    exact ⟨h.source, h.template, h.output, h.config⟩
  | output =>
    obtain ⟨v, hv, rfl⟩ := Option.map_eq_some_iff.mp hd
    exact ⟨h.source, h.template, ne_of_once? hv, h.config⟩
  | config =>
    obtain ⟨v, hv, rfl⟩ := Option.map_eq_some_iff.mp hd
    exact ⟨h.source, h.template, h.output, ne_of_once? hv⟩

theorem setFlag? {f : Flag} (hd : d.setFlag? f = some d') : d'.Named := by
  obtain ⟨hsource, htemplate, houtput, hconfig⟩ := h
  cases f <;> obtain ⟨-, hd⟩ := Option.ite_none_left_eq_some.mp hd <;> cases hd <;>
    exact ⟨hsource, htemplate, houtput, hconfig⟩

theorem setSource? {value : String} (hd : d.setSource? value = some d') : d'.Named := by
  obtain ⟨v, hv, rfl⟩ := Option.map_eq_some_iff.mp hd
  exact ⟨ne_of_once? hv, h.template, h.output, h.config⟩

end Named

end Draft

/-- What has been read, whether or not a value is still to come. -/
def Progress.draft : Progress → Draft
  | done d => d
  | awaiting _ d => d

theorem named_of_readLetters? {d : Draft} (h : d.Named) {cs : List Char} {p : Progress}
    (hp : readLetters? d cs = some p) : p.draft.Named := by
  fun_induction readLetters? d cs with
  | case1 =>
    cases hp
    exact h
  | case2 => cases hp
  | case3 d c rest f _ ih =>
    obtain ⟨d', hd', hp⟩ := Option.bind_eq_some_iff.mp hp
    exact ih d' (h.setFlag? hd') hp
  | case4 =>
    cases hp
    exact h
  | case5 | case6 =>
    obtain ⟨d', hd', rfl⟩ := Option.map_eq_some_iff.mp hp
    exact h.setField? hd'

theorem named_of_readName? {d : Draft} (h : d.Named) {cs : List Char} {p : Progress}
    (hp : readName? d cs = some p) : p.draft.Named := by
  unfold readName? at hp
  dsimp only at hp
  split at hp
  · cases hp
  · obtain ⟨d', hd', rfl⟩ := Option.map_eq_some_iff.mp hp
    exact h.setFlag? hd'
  · cases hp
  · cases hp
    exact h
  · obtain ⟨d', hd', rfl⟩ := Option.map_eq_some_iff.mp hp
    exact h.setField? hd'

/-- One argument gives no file an empty name. -/
theorem named_of_readOne? {d : Draft} (h : d.Named) {arg : String} {p : Progress}
    (hp : readOne? d arg = some p) : p.draft.Named := by
  unfold readOne? at hp
  split at hp
  · exact named_of_readName? h hp
  · exact named_of_readLetters? h hp
  · obtain ⟨d', hd', rfl⟩ := Option.map_eq_some_iff.mp hp
    exact h.setSource? hd'

theorem named_of_readSources? {d d' : Draft} (h : d.Named) {args : List String}
    (hd : readSources? d args = some d') : d'.Named := by
  induction args generalizing d with
  | nil =>
    cases hd
    exact h
  | cons arg rest ih =>
    obtain ⟨d₁, hd₁, hd⟩ := Option.bind_eq_some_iff.mp hd
    exact ih (h.setSource? hd₁) hd

/-- Nor does a whole row. -/
theorem named_of_readFrom? {d d' : Draft} (h : d.Named) {pending : Option Field}
    {args : List String} (hd : readFrom? d pending args = some d') : d'.Named := by
  fun_induction readFrom? d pending args with
  | case1 => cases hd
  | case2 =>
    cases hd
    exact h
  | case3 d arg rest f _ ih =>
    obtain ⟨d₁, hd₁, hd⟩ := Option.bind_eq_some_iff.mp hd
    exact ih d₁ (h.setField? hd₁) hd
  | case4 => cases hd
  | case5 => exact named_of_readSources? h hd
  | case6 => cases hd
  | case7 _ _ _ _ _ hone ih => exact ih (named_of_readOne? h hone) hd
  | case8 _ _ _ _ _ _ hone ih => exact ih (named_of_readOne? h hone) hd

/-- Only files with names are asked for. -/
theorem named_of_read? {args : List String} {a : Arguments} (h : read? args = some a) :
    a.Named := by
  obtain ⟨d, hd, ha⟩ := Option.bind_eq_some_iff.mp h
  obtain ⟨hsource, htemplate, houtput, hconfig⟩ := named_of_readFrom? Draft.named_empty hd
  unfold Draft.finish? at ha
  split at ha
  · next hs ht _ =>
    cases ha
    exact ⟨by simpa [hs] using hsource, by simpa [ht] using htemplate, houtput, hconfig⟩
  · next hs _ _ =>
    cases ha
    exact ⟨by simpa [hs] using hsource, nofun, houtput, hconfig⟩
  · cases ha

/-! ## What is written -/

/-- The name of an option with a value. -/
def Field.name : Field → String
  | template => "template"
  | select => "select"
  | output => "output"
  | config => "config"

/-- The name of an option without a value. -/
def Flag.name : Flag → String
  | pretty => "pretty"
  | strict => "strict"

/-- An option and its value as one argument. -/
def Field.argument (f : Field) (value : String) : String := "--" ++ f.name ++ "=" ++ value

/-- An option without a value as an argument. -/
def Flag.argument (f : Flag) : String := "--" ++ f.name

/-- The arguments of a request apart from its task. -/
def rest (a : Arguments) : List String :=
  (a.output.map Field.output.argument).toList ++ ((a.config.map Field.config.argument).toList ++
    ((if a.pretty then [Flag.pretty.argument] else []) ++
      ((if a.strict then [Flag.strict.argument] else []) ++ ["--", a.source])))

/-- A row of arguments for a request. -/
def row (a : Arguments) : List String :=
  match a.task with
  | .render template => Field.template.argument template :: a.rest
  | .select path => Field.select.argument path :: a.rest

theorem toList_argument (f : Field) (value : String) :
    (f.argument value).toList = '-' :: '-' :: (f.name.toList ++ '=' :: value.toList) := by
  simp [Field.argument]

/-- The name ends at the first equals sign, whatever the value is. -/
theorem readOne?_argument (d : Draft) (f : Field) (value : String) :
    readOne? d (f.argument value) = (d.setField? f value).map .done := by
  obtain ⟨hname, hequals⟩ : ofName? f.name = some (.field f) ∧ '=' ∉ f.name.toList := by
    cases f <;> decide
  have hplain : ∀ c ∈ f.name.toList, decide (c ≠ '=') = true := fun c hc =>
    decide_eq_true fun he => hequals (he ▸ hc)
  rw [readOne?, toList_argument]
  simp only [readName?]
  rw [List.takeWhile_append_of_pos hplain, List.dropWhile_append_of_pos hplain]
  simp [hname]

/-- An option with a value changes the draft. -/
theorem readFrom?_argument {d d' : Draft} {f : Field} {value : String}
    (h : d.setField? f value = some d') (args : List String) :
    readFrom? d none (f.argument value :: args) = readFrom? d' none args := by
  have hne : f.argument value ≠ "--" := fun he => by
    simpa [he] using toList_argument f value
  rw [readFrom?, if_neg hne, readOne?_argument, h]
  rfl

/-- An option with a value changes the draft if it is given. -/
theorem readFrom?_optional {d d' : Draft} {f : Field} {value : Option String}
    (h : value.elim (some d) (d.setField? f) = some d') (args : List String) :
    readFrom? d none ((value.map f.argument).toList ++ args) = readFrom? d' none args := by
  cases value with
  | none =>
    cases h
    rfl
  | some value => exact readFrom?_argument h args

/-- An option without a value changes the draft if it is given. -/
theorem readFrom?_flag {d d' : Draft} {f : Flag} {b : Bool}
    (h : (if b then d.setFlag? f else some d) = some d') (args : List String) :
    readFrom? d none ((if b then [f.argument] else []) ++ args) = readFrom? d' none args := by
  cases b with
  | false =>
    cases h
    rfl
  | true =>
    have hne : f.argument ≠ "--" := by cases f <;> decide
    have hone : readOne? d f.argument = (d.setFlag? f).map .done := by cases f <;> rfl
    rw [if_pos rfl, List.singleton_append, readFrom?, if_neg hne, hone,
      show d.setFlag? f = some d' from h]
    rfl

/-- Behind the task everything else is read. -/
theorem readFrom?_rest {a : Arguments} (h : a.Named) (template select : Option String) :
    readFrom? ⟨none, template, select, none, none, false, false⟩ none a.rest =
      some ⟨some a.source, template, select, a.output, a.config, a.pretty, a.strict⟩ := by
  obtain ⟨source, task, output, config, pretty, strict⟩ := a
  obtain ⟨hsource, -, houtput, hconfig⟩ := h
  have hwithOutput : output.elim (some ⟨none, template, select, none, none, false, false⟩)
      (Draft.setField? ⟨none, template, select, none, none, false, false⟩ .output) =
      some ⟨none, template, select, output, none, false, false⟩ := by
    cases output <;> simp_all [Draft.setField?, Draft.once?]
  have hwithConfig : config.elim (some ⟨none, template, select, output, none, false, false⟩)
      (Draft.setField? ⟨none, template, select, output, none, false, false⟩ .config) =
      some ⟨none, template, select, output, config, false, false⟩ := by
    cases config <;> simp_all [Draft.setField?, Draft.once?]
  have hwithPretty : (if pretty then
        Draft.setFlag? ⟨none, template, select, output, config, false, false⟩ .pretty
      else some ⟨none, template, select, output, config, false, false⟩) =
      some ⟨none, template, select, output, config, pretty, false⟩ := by
    cases pretty <;> rfl
  have hwithStrict : (if strict then
        Draft.setFlag? ⟨none, template, select, output, config, pretty, false⟩ .strict
      else some ⟨none, template, select, output, config, pretty, false⟩) =
      some ⟨none, template, select, output, config, pretty, strict⟩ := by
    cases strict <;> rfl
  rw [rest, readFrom?_optional hwithOutput, readFrom?_optional hwithConfig,
    readFrom?_flag hwithPretty, readFrom?_flag hwithStrict]
  simp_all [readFrom?, readSources?, Draft.setSource?, Draft.once?]

/-- The row is read as the request that it was written for. -/
theorem read?_row {a : Arguments} (h : a.Named) : read? a.row = some a := by
  have hrest := readFrom?_rest h
  obtain ⟨source, task, output, config, pretty, strict⟩ := a
  cases task with
  | render template =>
    have htemplate : template ≠ "" := fun he => h.template (he ▸ rfl)
    have htask : Draft.empty.setField? .template template =
        some ⟨none, some template, none, none, none, false, false⟩ := by
      simp [Draft.setField?, Draft.once?, Draft.empty, htemplate]
    rw [read?, row, readFrom?_argument htask, hrest]
    rfl
  | select path =>
    have htask : Draft.empty.setField? .select path =
        some ⟨none, none, some path, none, none, false, false⟩ := by
      simp [Draft.setField?, Draft.once?, Draft.empty]
    rw [read?, row, readFrom?_argument htask, hrest]
    rfl

/-- What can be asked for: just the requests for files with names. -/
theorem exists_read?_iff (a : Arguments) : (∃ args, read? args = some a) ↔ a.Named :=
  ⟨fun ⟨_, h⟩ => named_of_read? h, fun h => ⟨_, read?_row h⟩⟩

end Reshape.Command.Arguments
