import Reshape.Proofs.Path.Compile

/-!
# The pieces of a path

A scan takes a step off the text of a path, with the slash in front of it, or it finds a bracket in
the way. Such a bracket has no counterpart: it closes nothing, or nothing closes it. It is skipped
and leaves an empty step, which is within the grammar, so that compiling strictly does not refuse
it. Nothing else of the text is lost besides the slashes, and a closing bracket that is not in the
way closes the predicate of a step.

## Main definitions

* `Path.Piece`: what one scan takes off.
* `Path.Stray`: a bracket without a counterpart.
* `Path.CutInto`: the pieces of a text and the steps that are read from them.

## Main statements

* `Path.exists_pieces`: the pieces of a text.
* `Path.Fit.stray_iff_stands`: which brackets are in the way.
* `Path.cutInto_of_compileStrict`: the pieces of a path that is compiled strictly.
-/

namespace Reshape.Path

/-- What one scan takes off a text. -/
inductive Piece where
  /-- The text of a step, with or without a slash in front. -/
  | step (slash : Bool) (text : List Char)
  /-- A bracket in the way of the scan. -/
  | stray (bracket : Char)
deriving DecidableEq, Repr

namespace Piece

/-- The characters that are taken off. -/
def chars : Piece → List Char
  | step slash text => (if slash then ['/'] else []) ++ text
  | stray bracket => [bracket]

/-- The text of the step that the piece leaves. -/
def text : Piece → List Char
  | step _ text => text
  | stray _ => []

/-- What a scan takes off in front of a text. An opening bracket is in the way if nothing closes
it. -/
def Fits (rest : List Char) : Piece → Prop
  | step _ text => StepText text
  | stray bracket => bracket = ']' ∨ bracket = '[' ∧ ']' ∉ rest

end Piece

/-- The text of a row of pieces. -/
def textOf (pieces : List Piece) : List Char := pieces.flatMap Piece.chars

@[simp] theorem textOf_nil : textOf [] = [] := rfl

@[simp] theorem textOf_cons (q : Piece) (rest : List Piece) :
    textOf (q :: rest) = q.chars ++ textOf rest := rfl

/-- Every piece is taken off in front of the others. -/
def Fit : List Piece → Prop
  | [] => True
  | q :: rest => q.Fits (textOf rest) ∧ Fit rest

/-- A piece stands between two texts. -/
def Stands (pieces : List Piece) (before : List Char) (q : Piece) (after : List Char) : Prop :=
  ∃ front back, pieces = front ++ q :: back ∧ textOf front = before ∧ textOf back = after

/-- Whatever is opened in a text is closed in it again. -/
def NoneOpen (cs : List Char) : Prop := ∀ u v, cs = u ++ '[' :: v → ']' ∈ v

/-- A bracket between two texts that has no counterpart in them: it closes although nothing is open
in front of it, or it opens although nothing closes behind it. -/
def Stray (before : List Char) (bracket : Char) (after : List Char) : Prop :=
  bracket = ']' ∧ NoneOpen before ∨ bracket = '[' ∧ ']' ∉ after

/-- A text is cut into pieces, one for each of the steps. The brackets that are skipped are the
stray ones, and every other closing bracket is the end of the predicate of a step. -/
structure CutInto (text : List Char) (steps : List Step) (pieces : List Piece) : Prop where
  textOf_eq : textOf pieces = text
  texts_eq : pieces.map Piece.text = splitSteps text
  steps_eq : steps = pieces.map fun q => (readStep q.text).step
  stray_iff : ∀ before bracket after, text = before ++ bracket :: after →
    (Stray before bracket after ↔ Stands pieces before (.stray bracket) after)
  closing : ∀ before after, text = before ++ ']' :: after → ¬Stray before ']' after →
    ∃ front slash t, Stands pieces front (.step slash t) after ∧
      front ++ (Piece.step slash t).chars = before ++ [']'] ∧
        (readStep t).step.predicate.isSome = true

/-! ## Scans -/

/-- A scan finds the text of a step. -/
theorem stepText_scanBody (s : List Char) : StepText (scanBody s).1 := by
  have hname : ∀ c ∈ s.takeWhile isPlain, isPlain c = true := fun c => List.mem_takeWhile_imp
  unfold scanBody scanBrackets
  dsimp only
  split
  · next inner _ =>
    split
    · refine .bracketed hname fun hc => ?_
      simpa using List.mem_takeWhile_imp hc
    · simpa using StepText.plain hname
  · simpa using StepText.plain hname

/-- A scan that finds nothing has a bracket in the way. -/
theorem fits_stray_of_scan {c : Char} {rest : List Char}
    (h : ¬((scanSlash (c :: rest)).1 ≠ [] ∨ (scanStep (c :: rest)).1 ≠ [])) :
    (Piece.stray c).Fits rest := by
  rw [not_or, not_not, not_not] at h
  have hslash : c ≠ '/' := by
    rintro rfl
    cases h.1
  have hscan : scanStep (c :: rest) = scanBody (c :: rest) := by
    unfold scanStep scanSlash
    split <;> simp_all
  have hnil := h.2
  rw [hscan] at hnil
  obtain ⟨htake, hbrackets⟩ := List.append_eq_nil_iff.mp hnil
  have hplain : isPlain c = false := by
    by_contra hc
    rw [List.takeWhile_cons_of_pos (by simpa using hc)] at htake
    cases htake
  by_cases hclose : c = ']'
  · exact .inl hclose
  · have hopen : c = '[' := by simp_all [isPlain]
    subst hopen
    refine .inr ⟨rfl, fun hclose => ?_⟩
    obtain ⟨d, after, hdrop⟩ : ∃ d after, rest.dropWhile (· ≠ ']') = d :: after := by
      refine List.exists_cons_of_ne_nil fun hnil => ?_
      simpa using List.dropWhile_eq_nil_iff.mp hnil ']' hclose
    have hd := List.head?_dropWhile_not (· ≠ ']') rest
    rw [hdrop] at hd
    obtain rfl : d = ']' := by simpa using hd
    rw [List.dropWhile_cons_of_neg (by simp [hplain])] at hbrackets
    simp only [hdrop] at hbrackets
    cases hbrackets

/-- A text is cut into pieces, one for each of its steps. -/
theorem exists_pieces (s : List Char) :
    ∃ pieces, Fit pieces ∧ textOf pieces = s ∧ pieces.map Piece.text = splitSteps s := by
  fun_induction splitSteps s with
  | case1 s h ih =>
    obtain ⟨pieces, hfit, htext, hsteps⟩ := ih
    refine ⟨.step ((scanSlash s).1 ≠ []) (scanStep s).1 :: pieces,
      ⟨stepText_scanBody _, hfit⟩, ?_, by simp [Piece.text, hsteps]⟩
    have hslash : (scanSlash s).1 = if (scanSlash s).1 ≠ [] then ['/'] else [] := by
      unfold scanSlash
      split <;> rfl
    rw [textOf_cons, htext]
    conv_rhs => rw [← scanStep_append s, hslash]
    simp [Piece.chars]
  | case2 => exact ⟨[], trivial, rfl, rfl⟩
  | case3 c rest h ih =>
    obtain ⟨pieces, hfit, htext, hsteps⟩ := ih
    refine ⟨.stray c :: pieces, ⟨?_, hfit⟩, by simp [Piece.chars, htext],
      by simp [Piece.text, hsteps]⟩
    rw [htext]
    exact fits_stray_of_scan h

/-! ## Open brackets -/

theorem noneOpen_nil : NoneOpen [] := by
  intro u v h
  simp at h

theorem noneOpen_of_notMem {cs : List Char} (h : '[' ∉ cs) : NoneOpen cs := by
  rintro u v rfl
  exact absurd (by simp) h

theorem NoneOpen.append {before cs : List Char} (h : NoneOpen before) (hcs : NoneOpen cs) :
    NoneOpen (before ++ cs) := by
  intro u v huv
  rcases List.append_eq_append_iff.mp huv with ⟨w, -, hw⟩ | ⟨w, hw, hv⟩
  · exact hcs w v hw
  · rcases List.cons_eq_append_iff.mp hv with ⟨-, hv⟩ | ⟨w, rfl, rfl⟩
    · exact hcs [] v hv
    · exact List.mem_append_left _ (h u w hw)

/-- Behind a closing bracket nothing is open. -/
theorem noneOpen_concat (before : List Char) : NoneOpen (before ++ [']']) := by
  intro u v huv
  have hlast := congrArg List.getLast? huv
  rw [List.getLast?_concat, List.getLast?_append_cons] at hlast
  rcases v with _ | ⟨c, v⟩
  · simp at hlast
  · rw [List.getLast?_cons_cons] at hlast
    exact List.mem_of_getLast? hlast.symm

theorem NoneOpen.of_append {before cs : List Char} (h : NoneOpen (before ++ cs)) : NoneOpen cs := by
  rintro u v rfl
  exact h (before ++ u) v (List.append_assoc before u _).symm

/-- A step closes the bracket that it opens. -/
theorem noneOpen_step {t : List Char} (slash : Bool) (ht : StepText t) :
    NoneOpen (Piece.step slash t).chars := by
  have hslash : NoneOpen (if slash then ['/'] else []) :=
    noneOpen_of_notMem (by cases slash <;> decide)
  refine hslash.append ?_
  cases ht with
  | plain hname => exact noneOpen_of_notMem fun hc => absurd (hname _ hc) (by decide)
  | @bracketed name inner _ _ => simpa using noneOpen_concat (name ++ '[' :: inner)

/-- A closing bracket in a step is its last character, and closes the bracket of the step. -/
theorem eq_of_step_eq {t x y : List Char} {slash : Bool} (ht : StepText t)
    (h : (Piece.step slash t).chars = x ++ ']' :: y) : y = [] ∧ ∃ name inner,
      t = name ++ '[' :: (inner ++ [']']) ∧ '[' ∉ name ∧ ¬NoneOpen x := by
  have hslash : ']' ∉ (if slash then ['/'] else []) := by cases slash <;> decide
  cases ht with
  | plain hname =>
    have hclose : ']' ∈ (Piece.step slash t).chars := by simp [h]
    rcases List.mem_append.mp hclose with hc | hc
    · exact absurd hc hslash
    · exact absurd (hname _ hc) (by decide)
  | @bracketed name inner hname hinner =>
    have hplain : ∀ c, isPlain c = false → c ∉ name := fun c hc hmem => by
      simp [hname c hmem] at hc
    -- The one closing bracket of the step is the last of its characters.
    have hbefore : ']' ∉ (if slash then ['/'] else []) ++ name ++ '[' :: inner := by
      simp [hslash, hplain ']' (by decide), hinner]
    have hchars : (if slash then ['/'] else []) ++ name ++ '[' :: inner ++ ']' :: [] =
        x ++ ']' :: y := by simpa [Piece.chars] using h
    obtain ⟨rfl, -, rfl⟩ :=
      (List.append_cons_inj_of_notMem hbefore List.not_mem_nil).mp hchars
    exact ⟨rfl, name, inner, rfl, hplain '[' (by decide), fun hnone =>
      hinner (hnone _ inner rfl)⟩

/-! ## Rows of pieces -/

/-- A character of a row of pieces is taken off by one of them. -/
theorem exists_piece_at {pieces : List Piece} {u v : List Char} {c : Char}
    (h : textOf pieces = u ++ c :: v) : ∃ front q back x y, pieces = front ++ q :: back ∧
      q.chars = x ++ c :: y ∧ u = textOf front ++ x ∧ v = y ++ textOf back := by
  induction pieces generalizing u with
  | nil => simp at h
  | cons q rest ih =>
    have hcases : (∃ w, u = q.chars ++ w ∧ textOf rest = w ++ c :: v) ∨
        ∃ w, q.chars = u ++ c :: w ∧ v = w ++ textOf rest := by
      rcases List.append_eq_append_iff.mp h with hbehind | ⟨w, hq, hv⟩
      · exact .inl hbehind
      · rcases List.cons_eq_append_iff.mp hv with ⟨rfl, hrest⟩ | ⟨w, rfl, hrest⟩
        · exact .inl ⟨[], by simpa using hq.symm, hrest⟩
        · exact .inr ⟨w, hq, hrest⟩
    rcases hcases with ⟨w, rfl, hrest⟩ | ⟨w, hq, rfl⟩
    · obtain ⟨front, q', back, x, y, rfl, hq', rfl, rfl⟩ := ih hrest
      exact ⟨q :: front, q', back, x, y, rfl, hq', by simp, rfl⟩
    · exact ⟨[], q, rest, u, w, rfl, hq, rfl, rfl⟩

/-- Nothing is open in front of a closing bracket that is yet to come. An opening bracket that was
skipped stays open, but no closing one comes behind it. -/
def Outside (before rest : List Char) : Prop := ']' ∈ rest → NoneOpen before

theorem outside_nil (rest : List Char) : Outside [] rest := fun _ => noneOpen_nil

/-- A piece leaves nothing open that is closed behind it. -/
theorem Outside.append {before rest : List Char} {q : Piece}
    (h : Outside before (q.chars ++ rest)) (hq : q.Fits rest) :
    Outside (before ++ q.chars) rest := by
  intro hclose
  have hbefore : NoneOpen before := h (List.mem_append_right _ hclose)
  cases q with
  | step slash t => exact hbefore.append (noneOpen_step slash hq)
  | stray bracket =>
    rcases hq with rfl | ⟨-, hq⟩
    · exact noneOpen_concat before
    · exact absurd hclose hq

/-- Whatever a row of pieces opens is not closed behind it. -/
theorem Fit.outside {front back : List Piece} (h : Fit (front ++ back)) {before : List Char}
    (hbefore : Outside before (textOf (front ++ back))) :
    Fit back ∧ Outside (before ++ textOf front) (textOf back) := by
  induction front generalizing before with
  | nil => simpa using ⟨h, hbefore⟩
  | cons q front ih =>
    obtain ⟨hq, hrest⟩ := h
    have hnext := ih hrest (hbefore.append hq)
    rwa [List.append_assoc] at hnext

/-- What is in the way between two texts is stray there. -/
theorem Fit.stray_of_stands {pieces : List Piece} (hfit : Fit pieces) {before after : List Char}
    {bracket : Char} (h : Stands pieces before (.stray bracket) after) :
    Stray before bracket after := by
  obtain ⟨front, back, rfl, rfl, rfl⟩ := h
  obtain ⟨⟨hstray, -⟩, houtside⟩ := hfit.outside (outside_nil _)
  rcases hstray with rfl | hstray
  · exact .inl ⟨rfl, houtside List.mem_cons_self⟩
  · exact .inr hstray

/-- A character is in the way, or in one of the steps. -/
theorem Fit.stands_or_exists_step {pieces : List Piece} (hfit : Fit pieces)
    {before after : List Char} {c : Char} (htext : textOf pieces = before ++ c :: after) :
    Stands pieces before (.stray c) after ∨ ∃ front slash t back x y,
      Stands pieces front (.step slash t) back ∧ StepText t ∧
        (Piece.step slash t).chars = x ++ c :: y ∧ before = front ++ x ∧ after = y ++ back := by
  obtain ⟨front, q, back, x, y, rfl, hq, rfl, rfl⟩ := exists_piece_at htext
  obtain ⟨⟨hfits, -⟩, -⟩ := hfit.outside (outside_nil _)
  cases q with
  | stray bracket =>
    obtain ⟨rfl, rfl, rfl⟩ : x = [] ∧ c = bracket ∧ y = [] := by
      simpa [Piece.chars, List.singleton_eq_append_iff] using hq
    exact .inl ⟨front, back, rfl, (List.append_nil _).symm, rfl⟩
  | step slash t =>
    exact .inr ⟨_, slash, t, _, x, y, ⟨front, back, rfl, rfl, rfl⟩, hfits, hq, rfl, rfl⟩

/-- The brackets in the way are the stray ones. -/
theorem Fit.stray_iff_stands {pieces : List Piece} (hfit : Fit pieces) {before after : List Char}
    {bracket : Char} (htext : textOf pieces = before ++ bracket :: after) :
    Stray before bracket after ↔ Stands pieces before (.stray bracket) after := by
  refine ⟨fun h => ?_, hfit.stray_of_stands⟩
  rcases hfit.stands_or_exists_step htext with
    hstands | ⟨front, slash, t, back, x, y, -, ht, hq, rfl, rfl⟩
  · exact hstands
  · rcases h with ⟨rfl, hnone⟩ | ⟨rfl, hclose⟩
    · obtain ⟨-, -, -, -, -, hopen⟩ := eq_of_step_eq ht hq
      exact absurd hnone.of_append hopen
    · exact absurd (List.mem_append_left _ (noneOpen_step slash ht x y hq)) hclose

/-- Every other closing bracket is the last character of a step that has brackets. -/
theorem Fit.exists_step_of_not_stray {pieces : List Piece} (hfit : Fit pieces)
    {before after : List Char} (htext : textOf pieces = before ++ ']' :: after)
    (hstray : ¬Stray before ']' after) : ∃ front slash name inner,
      Stands pieces front (.step slash (name ++ '[' :: (inner ++ [']']))) after ∧
        front ++ (Piece.step slash (name ++ '[' :: (inner ++ [']']))).chars = before ++ [']'] ∧
          '[' ∉ name := by
  rcases hfit.stands_or_exists_step htext with
    hstands | ⟨front, slash, t, back, x, y, hstands, ht, hq, rfl, rfl⟩
  · exact absurd (hfit.stray_of_stands hstands) hstray
  · obtain ⟨rfl, name, inner, rfl, hname, -⟩ := eq_of_step_eq ht hq
    exact ⟨front, slash, name, inner, hstands, by simp [hq], hname⟩

/-! ## Paths -/

/-- A well-formed step with brackets has a predicate. -/
theorem isSome_predicate_of_wellFormed {name inner : List Char} (hname : '[' ∉ name)
    (h : WellFormed (name ++ '[' :: (inner ++ [']']))) :
    (readStep (name ++ '[' :: (inner ++ [']']))).step.predicate.isSome = true := by
  have hplain : ∀ c ∈ name, decide (c ≠ '[') = true := by grind
  rw [← wellFormed_readStep_iff] at h
  rcases hhead : readHead? name with _ | ⟨axis, segment⟩
  · rw [readStep, List.takeWhile_append_of_pos hplain] at h
    simp [hhead] at h
  rcases hcondition : readCondition? inner with _ | condition
  · rw [readStep, List.takeWhile_append_of_pos hplain, List.dropWhile_append_of_pos hplain] at h
    simp [hhead, hcondition] at h
  · rw [readStep_bracketed hname hhead hcondition] at h ⊢
    exact h

/-- A path that is compiled strictly loses nothing of its text but slashes and stray brackets. The
text is cut into pieces, one for each of the steps: the text of the step, with or without a slash in
front, or a stray bracket, which leaves an empty step. Every closing bracket that is not stray is
the end of a step with a predicate. -/
theorem cutInto_of_compileStrict {text : String} {p : Path} (h : compileStrict text = .ok p) :
    ∃ pieces, CutInto text.toList p.steps pieces := by
  obtain ⟨hwell, rfl⟩ := (compileStrict_eq_ok_iff text p).mp h
  obtain ⟨pieces, hfit, htext, hsplit⟩ := exists_pieces text.toList
  refine ⟨pieces, htext, hsplit, ?_, fun before bracket after heq =>
    hfit.stray_iff_stands (htext.trans heq), fun before after heq hstray => ?_⟩
  · simp [compile, compileChars, ← hsplit, Function.comp_def]
  · obtain ⟨front, slash, name, inner, hstands, heq, hname⟩ :=
      hfit.exists_step_of_not_stray (htext.trans heq) hstray
    refine ⟨front, slash, _, hstands, heq, isSome_predicate_of_wellFormed hname (hwell _ ?_)⟩
    obtain ⟨front, back, rfl, -⟩ := hstands
    simp [← hsplit, Piece.text]

theorem cutInto_of_compileStrict_brackets : ∃ pieces, CutInto "a]/b[c eq 1][d".toList
    [⟨.self, .name "a", none⟩, ⟨.self, .descend, none⟩,
      ⟨.self, .name "b", some ⟨false, "c", .keyword .equal, "1"⟩⟩, ⟨.self, .descend, none⟩,
      ⟨.self, .name "d", none⟩] pieces :=
  have hcompile : compileStrict "a]/b[c eq 1][d" = .ok ⟨false, _⟩ := by decide +kernel
  cutInto_of_compileStrict hcompile

/-- A stray bracket is not refused. Its path is compiled as one without predicates, and the texts of
its steps, with whatever slashes in front of them, are not its text. -/
theorem compileStrict_stray : compileStrict "a]b" = .ok ⟨false,
      [⟨.self, .name "a", none⟩, ⟨.self, .descend, none⟩, ⟨.self, .name "b", none⟩]⟩ ∧
    ∀ slashes, textOf (List.zipWith .step slashes (splitSteps "a]b".toList)) ≠ "a]b".toList := by
  refine ⟨by decide +kernel, fun slashes h => ?_⟩
  have hsplit : splitSteps "a]b".toList = [['a'], [], ['b']] := by decide +kernel
  have hclose : ']' ∈ "a]b".toList := by decide +kernel
  rw [← h, hsplit] at hclose
  rcases slashes with _ | ⟨_ | _, _ | ⟨_ | _, _ | ⟨_ | _, _⟩⟩⟩ <;> simp [Piece.chars] at hclose

end Reshape.Path
