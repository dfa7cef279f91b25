import Mathlib.Data.List.Forall2
import Reshape.Proofs.Path.Condition
import Reshape.Proofs.Path.Split

/-!
# Compiling paths

A step text that can be written is read as the writing that is taken, and any other one as the inert
step. So a path is compiled by the grammar of its steps.

## Main statements

* `Path.readStep_text`, `Path.readStep_of_forall_text_ne`: step texts that can and cannot be
  written.
* `Path.compiles_readStep`, `Path.wellFormed_readStep_iff`: a step is read as the grammar has it.
* `Path.compileStrict_of_stepText`, `Path.compileStrict_keyword`: a path of one step.
* `Path.compile_compiles`.
-/

namespace Reshape.Path

open Text (trim)

/-! ## Heads -/

namespace Writing

variable (w : Writing)

/-- There are no brackets in front of the brackets. -/
theorem plain_head : ∀ c ∈ w.head, c ≠ '[' ∧ c ≠ ']' := by
  have hpart : ∀ (p : Part), ∀ c ∈ p.chars, c ≠ '[' ∧ c ≠ ']' :=
    fun p c hc => ⟨(p.plain c hc).1, (p.plain c hc).2.1⟩
  intro c hc
  unfold head at hc
  split at hc
  · next axis _ =>
    rcases List.mem_append.mp hc with hc | hc
    · exact hpart axis c hc
    · rcases List.mem_cons.mp hc with rfl | hc
      · decide
      · rcases List.mem_cons.mp hc with rfl | hc
        · decide
        · exact hpart w.segment c hc
  · exact hpart w.segment c hc

/-- The brackets begin with the first of them. -/
theorem text_eq :
    w.text.takeWhile (· ≠ '[') = w.head ∧ w.text.dropWhile (· ≠ '[') = w.tail := by
  have hhead : ∀ c ∈ w.head, decide (c ≠ '[') = true :=
    fun c hc => decide_eq_true (w.plain_head c hc).1
  rw [text, List.takeWhile_append_of_pos hhead, List.dropWhile_append_of_pos hhead, tail]
  split <;> simp

/-- The axis ends with the first colon. -/
theorem head_eq :
    w.head.takeWhile (· ≠ ':') = (w.axis.getD w.segment).chars ∧
      w.head.dropWhile (· ≠ ':') =
        if w.axis.isSome then ':' :: ':' :: w.segment.chars else [] := by
  have hplain : ∀ (p : Part), ∀ c ∈ p.chars, decide (c ≠ ':') = true :=
    fun p c hc => decide_eq_true (p.plain c hc).2.2
  rcases w with ⟨_ | axis, segment, brackets⟩
  · exact ⟨List.takeWhile_eq_self_iff.mpr (hplain segment),
      List.dropWhile_eq_nil_iff.mpr (hplain segment)⟩
  · simp only [head]
    rw [List.takeWhile_append_of_pos (hplain axis), List.dropWhile_append_of_pos (hplain axis)]
    exact ⟨List.append_nil _, rfl⟩

/-- The text in front of the brackets says what the axis and the segment are. -/
theorem eq_of_head_eq {w w' : Writing} (h : w.head = w'.head) :
    w.axis = w'.axis ∧ w.segment = w'.segment := by
  have htake := w.head_eq.1
  have hdrop := w.head_eq.2
  rw [h, w'.head_eq.1] at htake
  rw [h, w'.head_eq.2] at hdrop
  rcases w with ⟨_ | axis, segment, brackets⟩ <;> rcases w' with ⟨_ | axis', segment', brackets'⟩
  · exact ⟨rfl, Part.ext htake.symm⟩
  · cases hdrop
  · cases hdrop
  · simp only [Option.isSome_some, if_true, List.cons.injEq, true_and] at hdrop
    exact ⟨congrArg some (Part.ext htake.symm), Part.ext hdrop.symm⟩

end Writing

/-- The axis and the segment are read from the text in front of the brackets. -/
theorem readHead?_head (w : Writing) : readHead? w.head = some (w.step.axis, w.step.segment) := by
  have hall : (w.head.all (· ≠ ']')) = true := by
    rw [List.all_eq_true]
    exact fun c hc => decide_eq_true (w.plain_head c hc).2
  have hsegment : (w.segment.chars.all (· ≠ ':')) = true := by
    rw [List.all_eq_true]
    exact fun c hc => decide_eq_true (w.segment.plain c hc).2.2
  rw [readHead?, w.head_eq.1, w.head_eq.2, hall]
  rcases w with ⟨_ | axis, segment, brackets⟩
  · rfl
  · exact if_pos ⟨hsegment, rfl⟩

/-- If an axis and a segment are read, the text is theirs. -/
theorem exists_head_of_readHead? {cs : List Char} (hcs : '[' ∉ cs) {a : Axis × Segment}
    (h : readHead? cs = some a) :
    ∃ axis segment, ∀ brackets, (⟨axis, segment, brackets⟩ : Writing).head = cs := by
  have happend := List.takeWhile_append_dropWhile (p := (· ≠ ':')) (l := cs)
  have hfirst : ∀ c ∈ cs.takeWhile (· ≠ ':'), c ≠ ':' := by
    intro c hc
    simpa using List.mem_takeWhile_imp hc
  have hpart : cs.all (· ≠ ']') = true → ∀ p : List Char, (∀ c ∈ p, c ∈ cs) →
      (∀ c ∈ p, c ≠ ':') → ∀ c ∈ p, c ≠ '[' ∧ c ≠ ']' ∧ c ≠ ':' := by
    intro hall p hp hcolon c hc
    refine ⟨?_, of_decide_eq_true (List.all_eq_true.mp hall c (hp c hc)), hcolon c hc⟩
    rintro rfl
    exact hcs (hp _ hc)
  unfold readHead? at h
  generalize cs.takeWhile (· ≠ ':') = first at *
  generalize cs.dropWhile (· ≠ ':') = rest at *
  dsimp only at h
  have hfits := (Option.ite_none_right_eq_some.mp h).1
  split at hfits
  · rw [List.append_nil] at happend
    subst happend
    exact ⟨none, ⟨first, hpart hfits.2 first (fun _ => id) hfirst⟩, fun _ => rfl⟩
  · next rest =>
    subst happend
    have hrest : ∀ c ∈ rest, c ≠ ':' := by simpa using hfits.1
    refine ⟨some ⟨first, hpart hfits.2 first (fun c hc => List.mem_append_left _ hc) hfirst⟩,
      ⟨rest, hpart hfits.2 rest (fun c hc => ?_) hrest⟩, fun _ => rfl⟩
    exact List.mem_append_right _ (.tail _ (.tail _ hc))
  · cases hfits.1

/-! ## Steps -/

namespace Writing

/-- A text says the axis and the segment, and what is written in the brackets. -/
theorem eq_of_text_eq {w w' : Writing} (h : w.text = w'.text) : w.axis = w'.axis ∧
    w.segment = w'.segment ∧ w.brackets.map Brackets.text = w'.brackets.map Brackets.text := by
  have hhead : w.head = w'.head := by rw [← w.text_eq.1, h, w'.text_eq.1]
  have htail : w.tail = w'.tail := by rw [← w.text_eq.2, h, w'.text_eq.2]
  refine ⟨(eq_of_head_eq hhead).1, (eq_of_head_eq hhead).2, ?_⟩
  rcases w with ⟨_, _, _ | b⟩ <;> rcases w' with ⟨_, _, _ | b'⟩
  · rfl
  · cases htail
  · cases htail
  · exact congrArg some (List.append_cancel_right (List.cons.inj htail).2)

/-- All writings of a text are balanced, or none is. -/
theorem Balanced.of_text_eq {w w' : Writing} (hw : w.Balanced) (h : w.text = w'.text) :
    w'.Balanced := by
  intro b' hb'
  obtain ⟨-, -, hbrackets⟩ := eq_of_text_eq h
  rw [hb', Option.map_some, Option.map_eq_some_iff] at hbrackets
  obtain ⟨b, hb, htext⟩ := hbrackets
  exact (hw b hb).of_text_eq htext

theorem taken_none (axis : Option Part) (segment : Part) :
    (⟨axis, segment, none⟩ : Writing).Taken (⟨axis, segment, none⟩ : Writing).text := by
  refine ⟨rfl, fun w hw => .inl ?_⟩
  obtain ⟨haxis, hsegment, hbrackets⟩ := eq_of_text_eq hw
  exact Writing.ext haxis hsegment (Option.map_eq_none_iff.mp hbrackets)

/-- A writing is taken if what stands between its brackets is. -/
theorem taken_some (axis : Option Part) (segment : Part) {b b' : Brackets} (hb : b.Taken b'.text) :
    (⟨axis, segment, some b⟩ : Writing).Taken (⟨axis, segment, some b'⟩ : Writing).text := by
  have hsame : (⟨axis, segment, some b⟩ : Writing).text =
      (⟨axis, segment, some b'⟩ : Writing).text := by
    simp only [Writing.text, Writing.tail, Writing.head, hb.1]
  refine ⟨hsame, fun w hw => ?_⟩
  obtain ⟨haxis, hsegment, hbrackets⟩ := eq_of_text_eq hw
  obtain ⟨b', hb', htext⟩ := Option.map_eq_some_iff.mp hbrackets
  rcases hb.2 b' htext with rfl | hbeats
  · exact .inl (Writing.ext haxis hsegment hb')
  · exact .inr ⟨b, rfl, b', hb', hbeats⟩

end Writing

/-- A text that can be written is read as its taken writing, with the predicate if that is
balanced. -/
theorem readStep_text (w : Writing) : ∃ w' : Writing, w'.Taken w.text ∧
    ((w'.Balanced ∧ readStep w.text = ⟨w'.step, true⟩) ∨
      (¬w'.Balanced ∧ readStep w.text = ⟨{ w'.step with predicate := none }, false⟩)) := by
  have hhead := readHead?_head w
  have htext := w.text_eq
  rcases w with ⟨axis, segment, _ | b⟩
  · refine ⟨_, Writing.taken_none axis segment, .inl ⟨?_, ?_⟩⟩
    · rintro b ⟨⟩
    · rw [readStep, htext.1, htext.2, hhead]
      rfl
  · rcases readCondition?_cases b.text with ⟨b', htaken, hcondition⟩ | ⟨hnone, -⟩
    · have htaken := Writing.taken_some axis segment htaken
      have hread : readStep (⟨axis, segment, some b⟩ : Writing).text =
          ⟨{ (⟨axis, segment, some b'⟩ : Writing).step with
            predicate := b'.condition.predicate? }, b'.condition.predicate?.isSome⟩ := by
        rw [readStep, htext.1, htext.2, hhead]
        simp only [Writing.tail, List.getLast?_concat, List.dropLast_concat, if_true, hcondition]
        rfl
      refine ⟨_, htaken, ?_⟩
      by_cases hbalanced : b'.Balanced
      · rw [Brackets.predicate?_condition_of_balanced hbalanced] at hread
        refine .inl ⟨?_, hread⟩
        rintro _ ⟨⟩
        exact hbalanced
      · rw [Brackets.predicate?_condition_of_not_balanced hbalanced] at hread
        exact .inr ⟨fun h => hbalanced (h b' rfl), hread⟩
    · exact absurd rfl (hnone b)

/-- A text that cannot be written is the inert step. -/
theorem readStep_of_forall_text_ne {cs : List Char} (h : ∀ w : Writing, w.text ≠ cs) :
    readStep cs = ⟨.inert, false⟩ := by
  have happend := List.takeWhile_append_dropWhile (p := (· ≠ '[')) (l := cs)
  have hhead : '[' ∉ cs.takeWhile (· ≠ '[') := by
    intro h
    simpa using List.mem_takeWhile_imp h
  have hbracket := List.head?_dropWhile_not (· ≠ '[') cs
  unfold readStep
  generalize cs.takeWhile (· ≠ '[') = head at *
  generalize cs.dropWhile (· ≠ '[') = tail at *
  dsimp only
  rcases hread : readHead? head with _ | a
  · rfl
  · obtain ⟨axis, segment, hwriting⟩ := exists_head_of_readHead? hhead hread
    have htext : ∀ brackets, (⟨axis, segment, brackets⟩ : Writing).tail ≠ tail := by
      intro brackets htail
      exact h ⟨axis, segment, brackets⟩ (by rw [Writing.text, hwriting, htail, happend])
    rcases tail with _ | ⟨c, inner⟩
    · exact absurd rfl (htext none)
    · obtain rfl : c = '[' := by simpa using hbracket
      dsimp only
      split
      · next hlast =>
        obtain ⟨body, rfl⟩ := List.getLast?_eq_some_iff.mp hlast
        rw [List.dropLast_concat]
        rcases readCondition?_cases body with ⟨b, ⟨rfl, -⟩, -⟩ | ⟨-, hcondition⟩
        · exact absurd rfl (htext (some b))
        · rw [hcondition]
      · rfl

/-- A bracketed condition behind an axis and a segment. -/
theorem readStep_bracketed {head body : List Char} {axis : Axis} {segment : Segment}
    {condition : Condition} (hopen : '[' ∉ head) (hhead : readHead? head = some (axis, segment))
    (hbody : readCondition? body = some condition) :
    readStep (head ++ '[' :: (body ++ [']'])) =
      ⟨⟨axis, segment, condition.predicate?⟩, condition.predicate?.isSome⟩ := by
  have hplain : ∀ c ∈ head, decide (c ≠ '[') = true := by grind
  rw [readStep, List.takeWhile_append_of_pos hplain, List.dropWhile_append_of_pos hplain]
  simp [hhead, hbody]

/-- A step text is read as what it stands for. -/
theorem compiles_readStep (cs : List Char) : Compiles cs (readStep cs).step := by
  by_cases h : ∃ w : Writing, w.text = cs
  · obtain ⟨w, rfl⟩ := h
    obtain ⟨w', htaken, ⟨hbalanced, hread⟩ | ⟨hbalanced, hread⟩⟩ := readStep_text w
    · rw [hread]
      exact .wellFormed ⟨w', htaken.1, hbalanced⟩ htaken
    · rw [hread]
      refine .unclosed ?_ htaken
      rintro ⟨w'', htext, hbalanced'⟩
      exact hbalanced (hbalanced'.of_text_eq (htext.trans htaken.1.symm))
  · rw [not_exists] at h
    rw [readStep_of_forall_text_ne h]
    exact .inert h

/-- A step text is accepted if it is well formed. -/
theorem wellFormed_readStep_iff (cs : List Char) :
    (readStep cs).wellFormed = true ↔ WellFormed cs := by
  constructor
  · intro hread
    by_contra hwell
    by_cases h : ∃ w : Writing, w.text = cs
    · obtain ⟨w, rfl⟩ := h
      obtain ⟨w', htaken, ⟨hbalanced, -⟩ | ⟨-, hread'⟩⟩ := readStep_text w
      · exact hwell ⟨w', htaken.1, hbalanced⟩
      · rw [hread'] at hread
        cases hread
    · rw [readStep_of_forall_text_ne (not_exists.mp h)] at hread
      cases hread
  · rintro ⟨w, rfl, hbalanced⟩
    obtain ⟨w', htaken, ⟨-, hread⟩ | ⟨hbalanced', -⟩⟩ := readStep_text w
    · rw [hread]
    · exact absurd (hbalanced.of_text_eq htaken.1.symm) hbalanced'

/-! ## Paths -/

/-- Rows of steps that the step texts stand for are the one that is compiled. -/
theorem forall₂_compiles_iff (texts : List (List Char)) (steps : List Step) :
    List.Forall₂ Compiles texts steps ↔ steps = texts.map fun s => (readStep s).step := by
  induction texts generalizing steps with
  | nil => simp
  | cons text rest ih =>
    rw [List.map_cons, List.forall₂_cons_left_iff]
    constructor
    · rintro ⟨step, others, hstep, hothers, rfl⟩
      rw [hstep.unique (compiles_readStep text), (ih others).mp hothers]
    · rintro rfl
      exact ⟨_, _, compiles_readStep text, (ih _).mpr rfl, rfl⟩

theorem compileStrict_eq_ok_iff (text : String) (p : Path) :
    compileStrict text = .ok p ↔
      (∀ s ∈ splitSteps text.toList, WellFormed s) ∧ p = compile text := by
  unfold compileStrict
  split
  · next s hfind =>
    have hmem := List.mem_of_find?_eq_some hfind
    have hill : ¬WellFormed s := by
      rw [← wellFormed_readStep_iff]
      simpa using List.find?_some hfind
    simp only [reduceCtorEq, false_iff, not_and]
    exact fun hall => absurd (hall s hmem) hill
  · next hfind =>
    have hall : ∀ s ∈ splitSteps text.toList, WellFormed s := by
      intro s hs
      rw [← wellFormed_readStep_iff]
      simpa using List.find?_eq_none.mp hfind s hs
    constructor
    · rintro ⟨⟩
      exact ⟨hall, rfl⟩
    · rintro ⟨-, rfl⟩
      rfl

/-- A path that is compiled in either way is the path of its text. -/
theorem eq_compile_of_compileWith {strict : Bool} {text : String} {p : Path}
    (h : compileWith strict text = .ok p) : p = compile text := by
  cases strict with
  | false => exact (Except.ok.inj h).symm
  | true => exact ((compileStrict_eq_ok_iff text p).mp h).2

theorem compileStrict_eq_error_iff (text : String) (e : MalformedStep) :
    compileStrict text = .error e ↔ ∃ before s after,
      splitSteps text.toList = before ++ s :: after ∧ (∀ s' ∈ before, WellFormed s') ∧
        ¬WellFormed s ∧ e = ⟨text, .ofList s⟩ := by
  have hfind : ∀ s, ((splitSteps text.toList).find? fun s => !(readStep s).wellFormed) = some s ↔
      ∃ before after, splitSteps text.toList = before ++ s :: after ∧
        (∀ s' ∈ before, WellFormed s') ∧ ¬WellFormed s := by
    intro s
    rw [List.find?_eq_some_iff_append]
    simp only [← wellFormed_readStep_iff, Bool.not_eq_true', Bool.not_eq_true, Bool.not_not]
    constructor
    · rintro ⟨hs, before, after, heq, hbefore⟩
      exact ⟨before, after, heq, hbefore, hs⟩
    · rintro ⟨before, after, heq, hbefore, hs⟩
      exact ⟨hs, before, after, heq, hbefore⟩
  unfold compileStrict
  split
  · next s hsome =>
    obtain ⟨before, after, heq, hbefore, hs⟩ := (hfind s).mp hsome
    constructor
    · rintro ⟨⟩
      exact ⟨before, s, after, heq, hbefore, hs, rfl⟩
    · rintro ⟨before', s', after', heq', hbefore', hs', rfl⟩
      rw [(hfind s').mpr ⟨before', after', heq', hbefore', hs'⟩] at hsome
      cases hsome
      rfl
  · next hnone =>
    constructor
    · rintro ⟨⟩
    · rintro ⟨before, s, after, heq, hbefore, hs, -⟩
      rw [(hfind s).mpr ⟨before, after, heq, hbefore, hs⟩] at hnone
      cases hnone

/-- A text that is one step is the path of that step. -/
theorem compileStrict_of_stepText {text : String} {step : Step} (htext : StepText text.toList)
    (hne : text.toList ≠ []) (hread : readStep text.toList = ⟨step, true⟩) :
    compileStrict text = .ok ⟨false, [step]⟩ := by
  have hsplit : splitSteps text.toList = [text.toList] := by
    have happend : splitSteps (text.toList ++ []) = text.toList :: splitSteps [] :=
      splitSteps_append htext hne (by simp)
    rwa [List.append_nil, splitSteps_nil] at happend
  refine (compileStrict_eq_ok_iff text _).mpr ⟨?_, ?_⟩
  · rw [hsplit, List.forall_mem_singleton, ← wellFormed_readStep_iff, hread]
  · simp [compile, compileChars, hsplit, hread, htext.head?_ne_slash]

/-- A path of one step that compares two operands by a word. In a bracketed text without anything
reserved, the last word is the operator. -/
theorem compileStrict_keyword {text : String} {head left right : List Char} {axis : Axis}
    {segment : Segment} {r : Relation}
    (htext : text.toList =
      head ++ '[' :: ((left ++ ((Operator.keyword r).written ++ right)) ++ [']']))
    (hhead : (∀ c ∈ head, isPlain c = true) ∧ readHead? head = some (axis, segment))
    (hleft : left ≠ [] ∧ ∀ c ∈ left, isReserved c = false ∧ c ≠ ']')
    (hright : right ≠ [] ∧ ∀ c ∈ right, isReserved c = false ∧ c ≠ ']')
    (hlast : splitLastWord? (' ' :: right) = none) :
    compileStrict text = .ok ⟨false, [⟨axis, segment,
      some ⟨false, .ofList (trim left), .keyword r, .ofList (trim right)⟩⟩]⟩ := by
  have hword : ∀ c ∈ (Operator.keyword r).written, isReserved c = false ∧ c ≠ ']' := by
    intro c hc
    refine ⟨isReserved_of_mem_written hc, ?_⟩
    rintro rfl
    cases r <;> simp [Operator.written, Relation.word] at hc
  have hplain : ∀ c ∈ left ++ ((Operator.keyword r).written ++ right),
      isReserved c = false ∧ c ≠ ']' := by
    simp only [List.mem_append]
    rintro c (hc | hc | hc)
    · exact hleft.2 c hc
    · exact hword c hc
    · exact hright.2 c hc
  have hparen : ∀ c, isReserved c = true →
      c ∉ left ++ ((Operator.keyword r).written ++ right) := by
    intro c hreserved hc
    rw [(hplain c hc).1] at hreserved
    cases hreserved
  have hcomparison := readComparison?_keyword r ⟨hleft.1, fun c hc => (hleft.2 c hc).1⟩
    ⟨hright.1, fun c hc => (hright.2 c hc).1⟩ hlast
  have hcondition := readCondition?_of_readComparison?
    ⟨hparen '(' (by decide), hparen ')' (by decide)⟩ hcomparison
  have hopen : '[' ∉ head := fun hc => absurd (hhead.1 '[' hc) (by decide)
  refine compileStrict_of_stepText ?_ ?_ ?_
  · rw [htext]
    exact .bracketed hhead.1 fun hclose => (hplain ']' hclose).2 rfl
  · simp [htext]
  · rw [htext, readStep_bracketed hopen hhead.2 hcondition]
    simp [Condition.predicate?]

/-- The grammar of steps is what paths are compiled by. A step text is accepted if it has a balanced
writing. Each of a path's steps is the one its text stands for: that of the writing that is taken,
or without its predicate if only a parenthesis is missing, or the inert one. A path is compiled
strictly if all its steps are well formed, and then as it is otherwise; if not, the first ill-formed
step is named. -/
theorem compile_compiles (text : String) :
    (∀ s ∈ splitSteps text.toList, ((readStep s).wellFormed = true ↔ WellFormed s)) ∧
    (∀ steps, List.Forall₂ Compiles (splitSteps text.toList) steps ↔
      steps = (compile text).steps) ∧
    (∀ p, compileStrict text = .ok p ↔
      (∀ s ∈ splitSteps text.toList, WellFormed s) ∧ p = compile text) ∧
    (∀ e, compileStrict text = .error e ↔ ∃ before s after,
      splitSteps text.toList = before ++ s :: after ∧ (∀ s' ∈ before, WellFormed s') ∧
        ¬WellFormed s ∧ e = ⟨text, .ofList s⟩) :=
  ⟨fun s _ => wellFormed_readStep_iff s, forall₂_compiles_iff _, compileStrict_eq_ok_iff text,
    compileStrict_eq_error_iff text⟩

/-- The last of two words counts. -/
example : (compile "a[b eq c eq d]").steps =
    [⟨.self, .name "a", some ⟨false, "b eq c", .keyword .equal, "d"⟩⟩] := by
  decide +kernel

end Reshape.Path
