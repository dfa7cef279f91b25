import Reshape.Proofs.Path.Piece
import Reshape.Proofs.Text.Blank

/-!
# Displaying paths

A step is displayed with its parts trimmed, with a single word or sign between the operands and with
every parenthesis closed. What is displayed is a writing as well, and it is the one that is taken:
trimming moves no word behind the operator. So the text of a step is read as that step, and the text
of a path is compiled to that path.

## Main statements

* `Path.Comparison.taken_text_iff`: a comparison is taken unless a word comes after its own.
* `Path.Writing.exists_display`: the text of a step as a writing.
* `Path.readStep_chars`: the text of a step is read as the step.
* `Path.splitSteps_chars`: the text of a path is split into the texts of its steps.
* `Path.compileStrict_display_of_readStep`: a path whose steps are read from their texts.
* `Path.compileStrict_display`: the text of a path that was compiled.
-/

namespace Reshape

/-- An axis has the name that it was made of, save the node itself. -/
theorem Axis.name_ofName {name : String} (h : ofName name ≠ .self) : (ofName name).name = name := by
  revert h
  unfold ofName
  split <;> simp [Axis.name]

/-- What stands between the brackets, with the operator as it is written. -/
theorem Predicate.body_eq (p : Predicate) :
    p.body = p.left.toList ++ (p.operator.written ++ p.right.toList) := by
  rcases p with ⟨negated, left, r | r, right⟩ <;> simp [body, Operator.written, Operator.chars]

namespace Path

open Text (trim trim_trim mem_of_mem_trim OnlySpaces)

/-! ## Words -/

/-- Where there is no word, there is none in a part of the text. -/
theorem splitLastWord?_of_infix {cs ds : List Char} (hpart : cs <:+: ds)
    (h : splitLastWord? ds = none) : splitLastWord? cs = none := by
  rcases hsplit : splitLastWord? cs with _ | ⟨left, r, right⟩
  · rfl
  · obtain ⟨rfl, hne⟩ := eq_of_splitLastWord? hsplit
    obtain ⟨before, after, rfl⟩ := hpart
    obtain ⟨_, _, _, -, hsome⟩ :=
      exists_splitLastWord? (before ++ left) r (List.append_ne_nil_of_left_ne_nil hne after)
    simp only [List.append_assoc] at h hsome
    rw [h] at hsome
    cases hsome

namespace Comparison

variable {c : Comparison}

/-- A word behind that of a comparison is the operator of another one with the same text. -/
theorem exists_later {r : Relation} (hop : c.operator = .keyword r)
    (hlater : splitLastWord? (' ' :: c.right.chars) ≠ none) :
    ∃ c' : Comparison, c'.text = c.text ∧ c.left.chars.length < c'.left.chars.length := by
  obtain ⟨⟨left, r', right⟩, hsplit⟩ := Option.ne_none_iff_exists'.mp hlater
  obtain ⟨heq, hne⟩ := eq_of_splitLastWord? hsplit
  have hplain : ∀ x ∈ left ++ ((Operator.keyword r').written ++ right), isReserved x = false := by
    rw [← heq]
    intro x hx
    rcases List.mem_cons.mp hx with rfl | hx
    · rfl
    · exact c.right.plain x hx
  have hletters : ∀ x ∈ [' ', r.word.1, r.word.2], isReserved x = false := by
    intro x hx
    have hword : x ∈ (Operator.keyword r).written := List.mem_append_left [' '] hx
    exact isReserved_of_mem_written hword
  have hleft : ∀ x ∈ c.left.chars ++ ([' ', r.word.1, r.word.2] ++ left), isReserved x = false := by
    intro x hx
    rcases List.mem_append.mp hx with hx | hx
    · exact c.left.plain x hx
    · rcases List.mem_append.mp hx with hx | hx
      · exact hletters x hx
      · exact hplain x (List.mem_append_left _ hx)
  have hright : ∀ x ∈ right, isReserved x = false := fun x hx =>
    hplain x (List.mem_append_right _ (List.mem_append_right _ hx))
  refine ⟨⟨⟨_, List.append_ne_nil_of_left_ne_nil c.left.ne_nil _, hleft⟩, .keyword r',
    ⟨right, hne, hright⟩⟩, ?_, by simp⟩
  have hwritten : (Operator.keyword r).written ++ c.right.chars =
      [' ', r.word.1, r.word.2] ++ ' ' :: c.right.chars := rfl
  rw [text, text, hop, hwritten, heq]
  simp

/-- A comparison is the one that counts among those with its text, unless a word comes behind its
own. -/
theorem taken_text_iff : c.Taken c.text ↔
    ∀ r, c.operator = .keyword r → splitLastWord? (' ' :: c.right.chars) = none := by
  constructor
  · intro htaken r hop
    by_contra hlater
    obtain ⟨c', htext, hlt⟩ := exists_later hop hlater
    rcases htaken.2 c' htext with rfl | hbeats
    · exact absurd hlt (Nat.lt_irrefl _)
    · exact absurd (hbeats.2 (by rw [hop]; rfl)) (Nat.lt_asymm hlt)
  · intro hlast
    rcases readComparison?_cases c.text with ⟨c', htaken, hread⟩ | ⟨hnone, -⟩
    · rcases hop : c.operator with r | r
      · -- The reader finds the word of the comparison, so that what is taken is the comparison.
        have hword := readComparison?_keyword r ⟨c.left.ne_nil, c.left.plain⟩
          ⟨c.right.ne_nil, c.right.plain⟩ (hlast r hop)
        rw [text, hop] at hread
        rw [hword] at hread
        simp only [Option.some.injEq, Prod.mk.injEq] at hread
        obtain ⟨hleft, hoperator, hright⟩ := hread
        obtain rfl : c = c' :=
          Comparison.ext (Operand.ext hleft) (hop.trans hoperator) (Operand.ext hright)
        exact htaken
      · rcases htaken.2 c rfl with rfl | hbeats
        · exact htaken
        · exact absurd hbeats.1 (by simp [hop, Operator.isKeyword])
    · exact absurd rfl (hnone c)

/-- The operands of a comparison may be trimmed: no word gets behind the operator. -/
theorem exists_trim (htaken : c.Taken c.text) (hspaces : OnlySpaces c.right.chars)
    (hleft : trim c.left.chars ≠ []) (hright : trim c.right.chars ≠ []) :
    ∃ c' : Comparison, c'.Taken c'.text ∧ c'.left.chars = trim c.left.chars ∧
      c'.operator = c.operator ∧ c'.right.chars = trim c.right.chars := by
  refine ⟨⟨⟨_, hleft, fun x hx => c.left.plain x (mem_of_mem_trim hx)⟩, c.operator,
    ⟨_, hright, fun x hx => c.right.plain x (mem_of_mem_trim hx)⟩⟩, ?_, rfl, rfl, rfl⟩
  rw [taken_text_iff] at htaken ⊢
  exact fun r hop => splitLastWord?_of_infix hspaces.space_cons_trim_infix (htaken r hop)

end Comparison

/-! ## Brackets -/

namespace Brackets

/-- What stands between brackets counts if its comparison does. -/
theorem taken_text {b : Brackets} (h : b.comparison.Taken b.comparison.text) : b.Taken b.text := by
  refine ⟨rfl, fun b' hb' => ?_⟩
  have hdropped := b'.eq_dropped
  rw [hb', ← b.eq_dropped.1, ← b.eq_dropped.2.1, ← b.eq_dropped.2.2] at hdropped
  rcases h.2 b'.comparison hdropped.2.1 with hcomparison | hbeats
  · exact .inl (Brackets.ext hdropped.1 hcomparison hdropped.2.2)
  · exact .inr hbeats

/-- The characters between brackets. -/
theorem mem_text_iff {b : Brackets} {x : Char} : x ∈ b.text ↔
    b.opened = true ∧ x ∈ "not(".toList ∨ x ∈ b.comparison.left.chars ∨
      x ∈ b.comparison.operator.written ∨ x ∈ b.comparison.right.chars ∨
        b.closed = true ∧ x = ')' := by
  rcases b with ⟨_ | _, c, _ | _⟩ <;> simp [text, Comparison.text, or_assoc]

/-- The text of a predicate is a writing of that predicate, and the one that counts. -/
theorem exists_display {b : Brackets} (htaken : b.comparison.Taken b.comparison.text)
    (hspaces : OnlySpaces b.text) (hleft : b.predicate.left ≠ "")
    (hright : b.predicate.right ≠ "") :
    ∃ b' : Brackets, b'.Taken b'.text ∧ b'.Balanced ∧ b'.predicate = b.predicate ∧
      b.predicate.chars = '[' :: (b'.text ++ [']']) ∧ ∀ x ∈ b'.text, x ∈ b.text ∨ x = ')' := by
  have hmem : ∀ x ∈ b.comparison.right.chars, x ∈ b.text := fun x hx =>
    mem_text_iff.mpr (.inr (.inr (.inr (.inl hx))))
  have hne : ∀ {cs : List Char}, String.ofList cs ≠ "" → cs ≠ [] := by
    rintro _ h rfl
    exact h rfl
  obtain ⟨c, hc, hcleft, hcoperator, hcright⟩ :=
    Comparison.exists_trim htaken (hspaces.of_subset hmem) (hne hleft) (hne hright)
  refine ⟨⟨b.opened, c, b.opened⟩, taken_text hc, id, ?_, ?_, fun x hx => ?_⟩
  · simp [predicate, hcleft, hcoperator, hcright, trim_trim]
  · have hbody : b.predicate.body = c.text := by
      simp [Predicate.body_eq, predicate, Comparison.text, hcleft, hcoperator, hcright]
    rw [Predicate.chars, hbody]
    rcases hopened : b.opened with _ | _ <;> simp [predicate, text, hopened]
  · rw [mem_text_iff] at hx ⊢
    simp only [hcleft, hcoperator, hcright] at hx
    rcases hx with hx | hx | hx | hx | hx
    · exact .inl (.inl hx)
    · exact .inl (.inr (.inl (mem_of_mem_trim hx)))
    · exact .inl (.inr (.inr (.inl hx)))
    · exact .inl (.inr (.inr (.inr (.inl (mem_of_mem_trim hx)))))
    · exact .inr hx.2

end Brackets

/-! ## Steps -/

/-- A step is scanned as a whole if nothing in front of its brackets ends a scan and no bracket
closes between them. -/
theorem stepText_text_iff (w : Writing) : StepText w.text ↔
    (∀ c ∈ w.head, isPlain c = true) ∧ ∀ b ∈ w.brackets, ']' ∉ b.text := by
  constructor
  · intro h
    obtain ⟨hhead, htail⟩ := w.text_eq
    generalize w.text = cs at h hhead htail
    have hopen : ∀ {name : List Char}, (∀ c ∈ name, isPlain c = true) →
        ∀ c ∈ name, decide (c ≠ '[') = true := by
      intro name hname c hc
      refine decide_eq_true ?_
      rintro rfl
      exact absurd (hname '[' hc) (by decide)
    cases h with
    | plain hname =>
      rw [List.takeWhile_eq_self_iff.mpr (hopen hname)] at hhead
      rw [List.dropWhile_eq_nil_iff.mpr (hopen hname)] at htail
      refine ⟨hhead ▸ hname, fun b hb => ?_⟩
      rw [Writing.tail, Option.mem_def.mp hb] at htail
      cases htail
    | @bracketed name inner hname hinner =>
      rw [List.takeWhile_append_of_pos (hopen hname)] at hhead
      rw [List.dropWhile_append_of_pos (hopen hname)] at htail
      refine ⟨?_, fun b hb => ?_⟩
      · rw [← hhead]
        simpa using hname
      · rw [Writing.tail, Option.mem_def.mp hb] at htail
        obtain rfl : inner = b.text := by simpa using htail
        exact hinner
  · rintro ⟨hhead, hbrackets⟩
    rcases w with ⟨axis, segment, _ | b⟩
    · rw [Writing.text, Writing.tail, List.append_nil]
      exact .plain hhead
    · exact .bracketed hhead (hbrackets b rfl)

/-- A part without blanks at its ends. -/
def Part.trimmed (p : Part) : Part := ⟨trim p.chars, fun c hc => p.plain c (mem_of_mem_trim hc)⟩

namespace Writing

variable {w : Writing} {brackets : Option Brackets}

/-- If a writing counts, so does what it has between its brackets. -/
theorem Taken.comparison {cs : List Char} (h : w.Taken cs) {b : Brackets}
    (hb : w.brackets = some b) : b.comparison.Taken b.comparison.text := by
  refine ⟨rfl, fun c hc => ?_⟩
  have htext : ({ w with brackets := some { b with comparison := c } } : Writing).text = cs := by
    rw [← h.1]
    simp [text, head, tail, hb, Brackets.text, hc]
  rcases h.2 _ htext with heq | ⟨b₁, hb₁, b₂, hb₂, hbeats⟩
  · have hbrackets := congrArg brackets heq
    rw [hb, Option.some.injEq] at hbrackets
    exact .inl (congrArg Brackets.comparison hbrackets)
  · cases hb.symm.trans hb₁
    cases hb₂
    exact .inr hbeats

/-- The parts of a step as they are displayed in front of brackets. The axis is left out where it is
the node itself. -/
def shown (w : Writing) (brackets : Option Brackets) : Writing where
  axis := if w.step.axis = .self then none else w.axis.map Part.trimmed
  segment := w.segment.trimmed
  brackets := brackets

/-- An axis that is not written is the node itself. -/
theorem axis_step_of_eq_none (h : w.axis = none) : w.step.axis = .self := by
  rw [step, h]
  rfl

/-- The displayed parts stand for the same axis and segment. -/
theorem step_shown :
    (w.shown brackets).step =
      ⟨w.step.axis, w.step.segment, brackets.map Brackets.predicate⟩ := by
  have haxis : (w.shown brackets).step.axis = w.step.axis := by
    by_cases hself : w.step.axis = .self
    · rw [hself, axis_step_of_eq_none (by simp [shown, hself])]
    · rcases h : w.axis with _ | axis
      · exact absurd (axis_step_of_eq_none h) hself
      · have hshown : (w.shown brackets).axis = some axis.trimmed := by simp [shown, hself, h]
        simp only [step, hshown, h, Option.map_some, Option.getD_some, Part.trimmed, trim_trim]
  have hsegment : (w.shown brackets).step.segment = w.step.segment := by
    simp only [step, shown, Part.trimmed, trim_trim]
  have hpredicate : (w.shown brackets).step.predicate = brackets.map Brackets.predicate := rfl
  rw [← haxis, ← hsegment, ← hpredicate]

/-- What is displayed in front of the brackets. -/
theorem head_shown : (w.shown brackets).head =
    (if w.step.axis = .self then [] else w.step.axis.name.toList ++ [':', ':']) ++
      w.step.segment.text.toList := by
  have hsegment : w.step.segment.text.toList = w.segment.trimmed.chars := by
    simp [step, Segment.text_ofText, Part.trimmed]
  rw [hsegment]
  by_cases hself : w.step.axis = .self
  · simp [shown, head, hself]
  · rcases h : w.axis with _ | axis
    · exact absurd (axis_step_of_eq_none h) hself
    · have hname : w.step.axis.name.toList = axis.trimmed.chars := by
        simp only [step, h, Option.map_some, Option.getD_some] at hself ⊢
        rw [Axis.name_ofName hself, String.toList_ofList]
        rfl
      simp [shown, head, hself, h, hname]

theorem mem_head_of_mem_head_shown {x : Char} (hx : x ∈ (w.shown brackets).head) : x ∈ w.head := by
  rcases h : w.axis with _ | axis
  · have hsegment : x ∈ w.segment.trimmed.chars := by simpa [shown, head, h] using hx
    simpa [head, h] using mem_of_mem_trim hsegment
  · have hparts : x ∈ axis.trimmed.chars ∨ x = ':' ∨ x ∈ w.segment.trimmed.chars := by
      by_cases hself : w.step.axis = .self
      · exact .inr (.inr (by simpa [shown, head, hself] using hx))
      · simpa [shown, head, hself, h] using hx
    simp only [head, h, List.mem_append, List.mem_cons]
    rcases hparts with hx | rfl | hx
    · exact .inl (mem_of_mem_trim hx)
    · exact .inr (.inl rfl)
    · exact .inr (.inr (.inr (mem_of_mem_trim hx)))

/-- The text of a step is a writing of that step, and the one that counts. -/
theorem exists_display (htaken : w.Taken w.text) (hstep : StepText w.text)
    (hspaces : OnlySpaces w.text)
    (hoperands : ∀ q ∈ w.step.predicate, q.left ≠ "" ∧ q.right ≠ "") :
    ∃ w' : Writing, w'.Taken w'.text ∧ StepText w'.text ∧ w'.Balanced ∧ w'.step = w.step ∧
      w'.text = w.step.chars := by
  rw [stepText_text_iff] at hstep
  have hhead : ∀ brackets, ∀ c ∈ (w.shown brackets).head, isPlain c = true := fun _ c hc =>
    hstep.1 c (mem_head_of_mem_head_shown hc)
  rcases hbrackets : w.brackets with _ | b
  · have hpredicate : w.step.predicate = none := by simp [step, hbrackets]
    refine ⟨w.shown none, taken_none _ _, (stepText_text_iff _).mpr ⟨hhead none, ?_⟩, ?_, ?_, ?_⟩
    · rintro b ⟨⟩
    · rintro b ⟨⟩
    · rw [step_shown, Option.map_none, ← hpredicate]
    · rw [text, tail, head_shown, Step.chars, hpredicate]
      rfl
  · have hpredicate : w.step.predicate = some b.predicate := by simp [step, hbrackets]
    have hmem : ∀ x ∈ b.text, x ∈ w.text := by
      intro x hx
      simp [text, tail, hbrackets, hx]
    obtain ⟨hleft, hright⟩ := hoperands _ hpredicate
    obtain ⟨b', htaken', hbalanced, hb', hchars, hsub⟩ :=
      Brackets.exists_display (htaken.comparison hbrackets) (hspaces.of_subset hmem) hleft hright
    refine ⟨w.shown (some b'), taken_some _ _ htaken',
      (stepText_text_iff _).mpr ⟨hhead _, ?_⟩, ?_, ?_, ?_⟩
    · rintro _ ⟨⟩ hclose
      exact (hsub _ hclose).elim (hstep.2 b hbrackets) (by decide)
    · rintro _ ⟨⟩
      exact hbalanced
    · rw [step_shown, Option.map_some, hb', ← hpredicate]
    · rw [text, tail, head_shown, Step.chars, hpredicate]
      exact congrArg _ hchars.symm

end Writing

/-- A well-formed text is read as the writing that counts. -/
theorem WellFormed.exists_taken {cs : List Char} (h : WellFormed cs) :
    ∃ w : Writing, w.Taken cs ∧ w.Balanced ∧ readStep cs = ⟨w.step, true⟩ := by
  obtain ⟨w, rfl, hbalanced⟩ := h
  obtain ⟨w', htaken, ⟨hbalanced', hread⟩ | ⟨hunbalanced, -⟩⟩ := readStep_text w
  · exact ⟨w', htaken, hbalanced', hread⟩
  · exact absurd (hbalanced.of_text_eq htaken.1.symm) hunbalanced

/-- The writing that counts is what is read. -/
theorem readStep_of_taken {w : Writing} (htaken : w.Taken w.text) (hbalanced : w.Balanced) :
    readStep w.text = ⟨w.step, true⟩ := by
  obtain ⟨w', htaken', -, hread⟩ := WellFormed.exists_taken ⟨w, rfl, hbalanced⟩
  rwa [htaken'.unique htaken] at hread

/-- The text of a step that was read is read as that step, and no scan cuts it. -/
theorem readStep_chars {cs : List Char} (hstep : StepText cs) (hwell : WellFormed cs)
    (hspaces : OnlySpaces cs)
    (hoperands : ∀ q ∈ (readStep cs).step.predicate, q.left ≠ "" ∧ q.right ≠ "") :
    StepText (readStep cs).step.chars ∧
      readStep (readStep cs).step.chars = ⟨(readStep cs).step, true⟩ := by
  obtain ⟨w, htaken, -, hread⟩ := hwell.exists_taken
  obtain rfl := htaken.1
  rw [hread] at hoperands ⊢
  obtain ⟨w', htaken', hstep', hbalanced', hsame, htext⟩ :=
    w.exists_display htaken hstep hspaces hoperands
  rw [← htext, ← hsame]
  exact ⟨hstep', readStep_of_taken htaken' hbalanced'⟩

/-! ## Paths -/

/-- The steps of a text are texts of steps, made of its characters. -/
theorem stepText_of_mem_splitSteps {cs s : List Char} (h : s ∈ splitSteps cs) :
    StepText s ∧ s ⊆ cs := by
  fun_induction splitSteps cs with
  | case1 cs hscan ih =>
    have happend := scanStep_append cs
    rcases List.mem_cons.mp h with rfl | h
    · refine ⟨stepText_scanBody _, ?_⟩
      conv_rhs => rw [← happend]
      simp
    · refine ⟨(ih h).1, List.Subset.trans (ih h).2 ?_⟩
      conv_rhs => rw [← happend]
      simp
  | case2 => cases h
  | case3 c rest hscan ih =>
    rcases List.mem_cons.mp h with rfl | h
    · exact ⟨.plain (by simp), by simp⟩
    · exact ⟨(ih h).1, List.Subset.trans (ih h).2 (List.subset_cons_self c rest)⟩

theorem splitSteps_ne_nil {cs : List Char} (h : cs ≠ []) : splitSteps cs ≠ [] := by
  obtain ⟨pieces, -, htext, hsteps⟩ := exists_pieces cs
  intro hnil
  obtain rfl : pieces = [] := by simpa [hnil] using hsteps
  exact h htext.symm

/-- The text of a path is split into the texts of its steps, unless the first of them is lost in
front of a slash. -/
theorem splitSteps_chars {p : Path} (hsteps : ∀ s ∈ p.steps, StepText s.chars)
    (habsolute : p.absolute = true → p.steps ≠ [])
    (hfirst : p.absolute = true ∨ ∀ s ∈ p.steps.head?, s.chars ≠ []) :
    splitSteps p.chars = p.steps.map Step.chars ∧
      (p.chars.head? = some '/' ↔ p.absolute = true) := by
  have htexts : ∀ t ∈ p.steps.map Step.chars, StepText t := by simpa using hsteps
  rcases p with ⟨_ | _, steps⟩
  · rcases steps with _ | ⟨s, rest⟩
    · exact ⟨splitSteps_nil, by simp [chars]⟩
    · have hne : s.chars ≠ [] := hfirst.resolve_left (by simp) s rfl
      have hstep : StepText s.chars := hsteps s List.mem_cons_self
      have htext : chars ⟨false, s :: rest⟩ =
          s.chars ++ (rest.map Step.chars).flatMap ('/' :: ·) :=
        (List.cons.inj (slash_cons_intercalate (List.cons_ne_nil s.chars _))).2
      exact ⟨splitSteps_intercalate_cons hne htexts,
        by simp [htext, hstep.head?_ne_slash, hne]⟩
  · exact ⟨splitSteps_intercalate (by simpa using habsolute rfl) htexts, by simp [chars]⟩

/-- A path whose steps are read from their texts is compiled from its text. -/
theorem compileStrict_display_of_readStep {p : Path}
    (hread : ∀ s ∈ p.steps, StepText s.chars ∧ readStep s.chars = ⟨s, true⟩)
    (habsolute : p.absolute = true → p.steps ≠ [])
    (hfirst : p.absolute = true ∨ ∀ s ∈ p.steps.head?, s.chars ≠ []) :
    compileStrict p.display = .ok p := by
  obtain ⟨hsplit, hslash⟩ := splitSteps_chars (fun s hs => (hread s hs).1) habsolute hfirst
  have hchars : p.display.toList = p.chars := String.toList_ofList
  have hsteps : (p.steps.map Step.chars).map (fun cs => (readStep cs).step) = p.steps := by
    rw [List.map_map]
    refine (List.map_congr_left fun s hs => ?_).trans (List.map_id p.steps)
    rw [Function.comp_apply, (hread s hs).2, id]
  refine (compileStrict_eq_ok_iff p.display p).mpr ⟨?_, ?_⟩
  · rw [hchars, hsplit]
    intro cs hcs
    obtain ⟨s, hs, rfl⟩ := List.mem_map.mp hcs
    rw [← wellFormed_readStep_iff, (hread s hs).2]
  · rw [compile, compileChars, hchars, hsplit, hsteps]
    simp only [hslash, Bool.decide_eq_true]

/-- Displaying a path and compiling it again gives the same path, if the text that it was compiled
from has no blanks but spaces, no operand is empty, and no empty step stands in front of its first
slash. -/
theorem compileStrict_display {text : String} {p : Path} (h : compileStrict text = .ok p)
    (hspaces : OnlySpaces text.toList)
    (hoperands : ∀ s ∈ p.steps, ∀ q ∈ s.predicate, q.left ≠ "" ∧ q.right ≠ "")
    (hfirst : p.absolute = true ∨ p.steps = [] ∨ ∃ s ∈ p.steps.head?, s.display ≠ "") :
    compileStrict p.display = .ok p := by
  obtain ⟨hwell, rfl⟩ := (compileStrict_eq_ok_iff text p).mp h
  refine compileStrict_display_of_readStep (fun s hs => ?_) (fun hslash => ?_) ?_
  · obtain ⟨cs, hcs, rfl⟩ := List.mem_map.mp hs
    obtain ⟨hstep, hsub⟩ := stepText_of_mem_splitSteps hcs
    exact readStep_chars hstep (hwell cs hcs) (hspaces.of_subset hsub) (hoperands _ hs)
  · have hne : text.toList ≠ [] := fun hnil => by
      simp [compile, compileChars, hnil] at hslash
    simpa [compile, compileChars] using splitSteps_ne_nil hne
  · rcases hfirst with hslash | hnil | ⟨s, hs, hdisplay⟩
    · exact .inl hslash
    · exact .inr (by simp [hnil])
    · refine .inr fun s' hs' hempty => hdisplay ?_
      rw [Option.mem_unique hs hs', Step.display, hempty]

/-- A name that is no axis, an operand with a bracket, a word and a slash in it, a parenthesis that
closes nothing, and empty steps. -/
theorem compileStrict_display_negated :
    let p : Path := ⟨false, [
      ⟨.unknown "b", .descend, some ⟨true, "x[ eq /", .keyword .notEqual, "y"⟩⟩,
      ⟨.self, .descend, none⟩,
      ⟨.self, .current, some ⟨false, "c", .symbol .greaterOrEqual, "\"d\""⟩⟩,
      ⟨.self, .descend, none⟩]⟩
    compileStrict " b :: [not( x[ eq / ne  y)]//.[c>=\"d\" )]/" = .ok p ∧
      p.display = "b::[not(x[ eq / ne y)]//.[c>=\"d\"]/" ∧ compileStrict p.display = .ok p :=
  have hcompile : compileStrict " b :: [not( x[ eq / ne  y)]//.[c>=\"d\" )]/" = .ok _ := by
    decide +kernel
  ⟨hcompile, by decide +kernel, compileStrict_display hcompile (by decide +kernel)
    (by decide +kernel) (by decide +kernel)⟩

-- A tab in front of a letter makes no word, but once it is trimmed a space stands there.
example : compileStrict "a[b eq \teq c]" =
      .ok ⟨false, [⟨.self, .name "a", some ⟨false, "b", .keyword .equal, "eq c"⟩⟩]⟩ ∧
    compileStrict "a[b eq eq c]" =
      .ok ⟨false, [⟨.self, .name "a", some ⟨false, "b eq", .keyword .equal, "c"⟩⟩]⟩ := by
  decide +kernel

end Path

end Reshape
