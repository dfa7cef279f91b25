import Reshape.Path.Split

/-!
# Splitting what was joined

Step texts that are written one after the other, each behind a slash, are found again.

A text is split by a loop, which either scans a step or skips a character. Whatever the text is,
each round leaves less of it, so that there is one row of rounds and it has an end.

## Main definitions

* `Path.StepText`: a name, perhaps with brackets behind it.
* `Path.round?`: one round of the splitting of a text.
* `Path.Rounds`: the loop, without a bound.

## Main statements

* `Path.scanBody_append`: the step in front of a text.
* `Path.splitSteps_append`: the step in front of a text without a leading slash.
* `Path.splitSteps_flatMap`, `Path.splitSteps_intercalate`: the steps of a joined text.
* `Path.Rounds.unique`, `Path.rounds_splitSteps`: the rounds find the steps of the text.
* `Path.splitSteps_join`.
-/

namespace Reshape.Path

/-- The text of a step: a name, and perhaps closed brackets behind it. -/
inductive StepText : List Char → Prop
  | plain {name : List Char} : (∀ c ∈ name, isPlain c = true) → StepText name
  | bracketed {name inner : List Char} : (∀ c ∈ name, isPlain c = true) → ']' ∉ inner →
      StepText (name ++ '[' :: (inner ++ [']']))

theorem scanBrackets_of_head {rest : List Char} (h : ∀ c ∈ rest.head?, c = '/') :
    scanBrackets rest = ([], rest) := by
  unfold scanBrackets
  split
  · simp at h
  · rfl

theorem scanBrackets_append_of_closed {inner : List Char} (h : ']' ∉ inner) (rest : List Char) :
    scanBrackets ('[' :: (inner ++ ']' :: rest)) = ('[' :: (inner ++ [']']), rest) := by
  have hinner : ∀ c ∈ inner, decide (c ≠ ']') = true := by grind
  have htake : (inner ++ ']' :: rest).takeWhile (· ≠ ']') = inner := by
    rw [List.takeWhile_append_of_pos hinner]
    simp
  have hdrop : (inner ++ ']' :: rest).dropWhile (· ≠ ']') = ']' :: rest := by
    rw [List.dropWhile_append_of_pos hinner]
    simp
  simp only [scanBrackets, htake, hdrop]

/-- A step ends where a slash follows or the text ends. -/
theorem scanBody_append {s rest : List Char} (hs : StepText s) (hr : ∀ c ∈ rest.head?, c = '/') :
    scanBody (s ++ rest) = (s, rest) := by
  cases hs with
  | plain hname =>
    have hstop : ∀ c ∈ rest.head?, isPlain c = false := fun c hc => hr c hc ▸ by decide
    have htake : rest.takeWhile isPlain = [] := by cases rest <;> simp_all
    have hdrop : rest.dropWhile isPlain = rest := by cases rest <;> simp_all
    simp only [scanBody, List.takeWhile_append_of_pos hname, List.dropWhile_append_of_pos hname,
      htake, hdrop, scanBrackets_of_head hr, List.append_nil]
  | @bracketed name inner hname hinner =>
    have hopen : isPlain '[' = false := by decide
    have hassoc : name ++ '[' :: (inner ++ [']']) ++ rest =
        name ++ '[' :: (inner ++ ']' :: rest) := by simp
    simp only [hassoc, scanBody, List.takeWhile_append_of_pos hname,
      List.dropWhile_append_of_pos hname, List.takeWhile_cons, List.dropWhile_cons, hopen,
      Bool.false_eq_true, if_false, scanBrackets_append_of_closed hinner, List.append_nil]

theorem splitSteps_nil : splitSteps [] = [] := by
  simp [splitSteps, scanStep, scanSlash, scanBody, scanBrackets]

theorem splitSteps_slash_append {s rest : List Char} (hs : StepText s)
    (hr : ∀ c ∈ rest.head?, c = '/') : splitSteps ('/' :: (s ++ rest)) = s :: splitSteps rest := by
  have hstep : scanStep ('/' :: (s ++ rest)) = (s, rest) := scanBody_append hs hr
  rw [splitSteps, dif_pos (.inl (by simp [scanSlash])), hstep]

/-- A step does not begin with a slash. -/
theorem StepText.head?_ne_slash {s : List Char} (h : StepText s) : s.head? ≠ some '/' := by
  intro hhead
  cases h with
  | plain hname => exact absurd (hname '/' (List.mem_of_mem_head? hhead)) (by decide)
  | @bracketed name _ hname _ =>
    cases name with
    | nil => simp at hhead
    | cons c name =>
      obtain rfl : c = '/' := by simpa using hhead
      exact absurd (hname '/' List.mem_cons_self) (by decide)

theorem StepText.scanSlash_append {s : List Char} (h : StepText s) (hne : s ≠ [])
    (rest : List Char) : scanSlash (s ++ rest) = ([], s ++ rest) := by
  obtain ⟨c, cs, rfl⟩ := List.exists_cons_of_ne_nil hne
  unfold scanSlash
  split
  · next hslash => exact absurd (congrArg List.head? hslash) h.head?_ne_slash
  · rfl

/-- The first step needs no slash in front, unless it is empty. -/
theorem splitSteps_append {s rest : List Char} (hs : StepText s) (hne : s ≠ [])
    (hr : ∀ c ∈ rest.head?, c = '/') : splitSteps (s ++ rest) = s :: splitSteps rest := by
  have hstep : scanStep (s ++ rest) = (s, rest) := by
    rw [scanStep, hs.scanSlash_append hne, scanBody_append hs hr]
  rw [splitSteps, dif_pos (.inr (by rwa [hstep])), hstep]

/-- Steps that stand behind slashes are the steps of the text. -/
theorem splitSteps_flatMap {steps : List (List Char)} (h : ∀ s ∈ steps, StepText s) :
    splitSteps (steps.flatMap ('/' :: ·)) = steps := by
  induction steps with
  | nil => exact splitSteps_nil
  | cons s rest ih =>
    have hhead : ∀ c ∈ (rest.flatMap ('/' :: ·)).head?, c = '/' := by cases rest <;> simp
    rw [List.flatMap_cons, List.cons_append, splitSteps_slash_append (h s (by simp)) hhead,
      ih fun s' hs' => h s' (by simp [hs'])]

theorem slash_cons_intercalate {steps : List (List Char)} (h : steps ≠ []) :
    '/' :: ['/'].intercalate steps = steps.flatMap ('/' :: ·) := by
  induction steps with
  | nil => exact absurd rfl h
  | cons s rest ih =>
    cases rest with
    | nil => simp
    | cons s' rest => simp_all [List.intercalate_cons_cons]

/-- A slash and steps with slashes between them. -/
theorem splitSteps_intercalate {steps : List (List Char)} (hne : steps ≠ [])
    (h : ∀ s ∈ steps, StepText s) : splitSteps ('/' :: ['/'].intercalate steps) = steps := by
  rw [slash_cons_intercalate hne, splitSteps_flatMap h]

/-- A first step that is not empty needs no slash in front. -/
theorem splitSteps_intercalate_cons {s : List Char} {rest : List (List Char)} (hne : s ≠ [])
    (h : ∀ t ∈ s :: rest, StepText t) :
    splitSteps (['/'].intercalate (s :: rest)) = s :: rest := by
  have htext : ['/'].intercalate (s :: rest) = s ++ rest.flatMap ('/' :: ·) :=
    (List.cons.inj (slash_cons_intercalate (List.cons_ne_nil s rest))).2
  have hhead : ∀ c ∈ (rest.flatMap ('/' :: ·)).head?, c = '/' := by cases rest <;> simp
  rw [List.forall_mem_cons] at h
  rw [htext, splitSteps_append h.1 hne hhead, splitSteps_flatMap h.2]

/-! ## The loop -/

/-- One round of the splitting of a text: the step that it finds and what is left of the text. Where
the scan does not get on, a character is skipped; at the end of the text there is no round. -/
def round? (s : List Char) : Option (List Char × List Char) :=
  if (scanStep s).2.length < s.length then some (scanStep s)
  else s.tail?.map fun rest => ([], rest)

/-- The rounds from a text on until there is none: the steps that they find. -/
inductive Rounds : List Char → List (List Char) → Prop
  | stop {s : List Char} : round? s = none → Rounds s []
  | go {s step rest : List Char} {steps : List (List Char)} :
      round? s = some (step, rest) → Rounds rest steps → Rounds s (step :: steps)

/-- The scan gets on if it finds a slash or a step. -/
theorem length_scanStep_lt_iff {s : List Char} :
    (scanStep s).2.length < s.length ↔ (scanSlash s).1 ≠ [] ∨ (scanStep s).1 ≠ [] := by
  refine ⟨fun hlt => Classical.byContradiction fun hnone => ?_, length_scanStep_lt⟩
  rw [not_or, Classical.not_not, Classical.not_not] at hnone
  have happend := scanStep_append s
  rw [hnone.1, hnone.2, List.nil_append, List.nil_append] at happend
  rw [happend] at hlt
  exact Nat.lt_irrefl _ hlt

/-- A round shortens the text. -/
theorem length_lt_of_round? {s step rest : List Char} (h : round? s = some (step, rest)) :
    rest.length < s.length := by
  unfold round? at h
  split at h
  · next hlt =>
    rw [Option.some.inj h] at hlt
    exact hlt
  · cases s with
    | nil => cases h
    | cons c s =>
      cases h
      exact Nat.lt_succ_self _

/-- The rounds find the steps of the text. -/
theorem rounds_splitSteps (s : List Char) : Rounds s (splitSteps s) := by
  fun_induction splitSteps s with
  | case1 s hscan ih => exact .go (if_pos (length_scanStep_lt_iff.mpr hscan)) ih
  | case2 hscan => exact .stop (if_neg fun hlt => hscan (length_scanStep_lt_iff.mp hlt))
  | case3 c rest hscan ih => exact .go (if_neg fun hlt => hscan (length_scanStep_lt_iff.mp hlt)) ih

/-- There is one row of rounds from a text. -/
theorem Rounds.unique {s : List Char} {steps steps' : List (List Char)} (h : Rounds s steps)
    (h' : Rounds s steps') : steps = steps' := by
  induction h generalizing steps' with
  | stop hnone =>
    cases h' with
    | stop _ => rfl
    | go hsome _ => cases hnone.symm.trans hsome
  | go hsome _ ih =>
    cases h' with
    | stop hnone => cases hsome.symm.trans hnone
    | go hsome' hrest =>
      cases hsome.symm.trans hsome'
      rw [ih hrest]

/-- There are no more rounds than characters. -/
theorem Rounds.length_le {s : List Char} {steps : List (List Char)} (h : Rounds s steps) :
    steps.length ≤ s.length := by
  induction h with
  | stop _ => exact Nat.zero_le _
  | go hsome _ ih => exact Nat.succ_le_of_lt (Nat.lt_of_le_of_lt ih (length_lt_of_round? hsome))

/-- Splitting undoes joining, if all that is joined are texts of steps: with a slash in front, and
also without one if the first step is not empty. Whatever the text is, the rounds of the splitting
come to an end. There is one row of rounds from the text, with no more of them than characters. -/
theorem splitSteps_join :
    (∀ texts : List (List Char), texts ≠ [] → (∀ t ∈ texts, StepText t) →
      splitSteps ('/' :: ['/'].intercalate texts) = texts ∧
      (texts.head? ≠ some [] → splitSteps (['/'].intercalate texts) = texts)) ∧
    ∀ s : List Char, (∀ steps, Rounds s steps ↔ steps = splitSteps s) ∧
      (splitSteps s).length ≤ s.length := by
  refine ⟨fun texts hne h => ⟨splitSteps_intercalate hne h, fun hfirst => ?_⟩, fun s => ?_⟩
  · cases texts with
    | nil => exact absurd rfl hne
    | cons t rest => exact splitSteps_intercalate_cons (fun hnil => hfirst (by rw [hnil]; rfl)) h
  · refine ⟨fun steps => ⟨fun hrounds => hrounds.unique (rounds_splitSteps s), ?_⟩,
      (rounds_splitSteps s).length_le⟩
    rintro rfl
    exact rounds_splitSteps s

/-- A bracket group with a slash and an opening bracket in it, and empty steps. -/
theorem splitSteps_join_empty :
    let texts := ["a[b/[c]".toList, [], ['d'], []]
    texts ≠ [] ∧ (∀ t ∈ texts, StepText t) ∧ texts.head? ≠ some [] ∧
      splitSteps "/a[b/[c]//d/".toList = texts ∧ splitSteps "a[b/[c]//d/".toList = texts ∧
      Rounds "a]b[".toList (splitSteps "a]b[".toList) := by
  intro texts
  have hne : texts ≠ [] := List.cons_ne_nil _ _
  have hbrackets : StepText "a[b/[c]".toList :=
    @StepText.bracketed ['a'] "b/[c".toList (by simp [isPlain]) (by decide)
  have h : ∀ t ∈ texts, StepText t := by
    intro t ht
    simp only [texts, List.mem_cons, List.not_mem_nil, or_false] at ht
    rcases ht with rfl | rfl | rfl | rfl
    · exact hbrackets
    all_goals exact .plain (by simp [isPlain])
  obtain ⟨hjoined, hrounds⟩ := splitSteps_join
  exact ⟨hne, h, by decide, (hjoined texts hne h).1, (hjoined texts hne h).2 (by decide),
    ((hrounds _).1 _).mpr rfl⟩

end Reshape.Path
