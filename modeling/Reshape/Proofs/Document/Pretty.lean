import Reshape.Proofs.Document.RoundTrip
import Reshape.Proofs.Json.Brackets

/-!
# Indented text

The indented text of a document is its compact text with white space between the tokens. What
stands inside of strings is the same in both, so that leaving out the spaces and line feeds outside
of strings gives the compact text back, and both texts are read as the same document.

## Main definitions

* `Json.Scan.tight`: a text without the white space outside of strings.
* `Json.Tightens`: a text that ends outside of strings, and what is left of it.

## Main statements

* `Json.tightens_prettyAt`: leaving the white space out.
* `Json.valueText_prettyAt`: the indented text of a tree in the grammar.
* `Document.toPrettyJson_tight`: the text of a document.
-/

namespace Reshape

namespace Json

/-! ## Leaving out white space -/

/-- The text without the spaces and line feeds that a scan sees outside of strings. -/
def Scan.tight : Scan → List Char → List Char
  | _, [] => []
  | q, c :: s =>
    if q = outside ∧ (c = ' ' ∨ c = '\n') then tight (q.step c) s else c :: tight (q.step c) s

@[simp] theorem Scan.tight_append (q : Scan) (s s' : List Char) :
    q.tight (s ++ s') = q.tight s ++ (q.run s).tight s' := by
  induction s generalizing q with
  | nil => rfl
  | cons c s ih =>
    simp only [List.cons_append, tight, ih, run_cons]
    split <;> rfl

/-- A text that ends outside of strings, if it begins there, and what is left of it without white
space. -/
structure Tightens (w v : List Char) : Prop where
  run_eq : Scan.outside.run w = .outside
  tight_eq : Scan.outside.tight w = v

namespace Tightens

variable {w v w' v' : List Char}

theorem nil : Tightens [] [] := ⟨rfl, rfl⟩

theorem append (h : Tightens w v) (h' : Tightens w' v') : Tightens (w ++ w') (v ++ v') where
  run_eq := by rw [Scan.run_append, h.run_eq, h'.run_eq]
  tight_eq := by rw [Scan.tight_append, h.run_eq, h.tight_eq, h'.tight_eq]

/-- Characters that are neither quotes nor white space are all left. -/
theorem of_plain (h : ∀ c ∈ w, c ∉ ['"', ' ', '\n']) : Tightens w w := by
  induction w with
  | nil => exact nil
  | cons c w ih =>
    have hc : c ≠ '"' ∧ c ≠ ' ' ∧ c ≠ '\n' := by simpa using h c (by simp)
    have hsingle : Tightens [c] [c] := ⟨by simp [Scan.step, hc], by simp [Scan.tight, hc]⟩
    exact hsingle.append (ih fun c hc => h c (by simp [hc]))

theorem of_blank (h : ∀ c ∈ w, c = ' ' ∨ c = '\n') : Tightens w [] := by
  induction w with
  | nil => exact nil
  | cons c w ih =>
    have hsingle : Tightens [c] [] := by
      rcases h c (by simp) with rfl | rfl <;> exact ⟨rfl, rfl⟩
    exact hsingle.append (ih fun c hc => h c (by simp [hc]))

/-- Between brackets. -/
theorem wrap (b : Bracket) (h : Tightens w v) :
    Tightens (b.opening :: (w ++ [b.closing])) (b.opening :: (v ++ [b.closing])) := by
  have hopening : Tightens [b.opening] [b.opening] :=
    .of_plain (by cases b <;> simp [Bracket.opening])
  have hclosing : Tightens [b.closing] [b.closing] :=
    .of_plain (by cases b <;> simp [Bracket.closing])
  exact hopening.append (h.append hclosing)

end Tightens

/-! ## Strings and leaves -/

/-- Nothing is left out of a character that is written inside of a string. -/
theorem tight_escape (c : Char) : Scan.inside.tight (escape c) = escape c := by
  -- of the two hexadecimal digits of an escape, only the first could end the string
  have hhigh : ∀ n < 0x20, hexDigit (n / 16) ≠ '"' ∧ hexDigit (n / 16) ≠ '\\' := by decide
  unfold escape
  repeat' split
  all_goals try rfl
  next hc => simp [Scan.tight, Scan.step, hhigh _ hc]

theorem tight_flatMap_escape (cs : List Char) :
    Scan.inside.tight (cs.flatMap escape) = cs.flatMap escape := by
  induction cs with
  | nil => rfl
  | cons c cs ih =>
    have hrun := (chars_escape [c]).within.run_eq
    rw [List.flatMap_singleton] at hrun
    rw [List.flatMap_cons, Scan.tight_append, hrun, tight_escape, ih]

theorem tightens_quoted (cs : List Char) : Tightens (quoted cs) (quoted cs) where
  run_eq := (chars_escape cs).within.closed.run_eq
  tight_eq := by
    simp [quoted, Scan.tight, Scan.step, (chars_escape cs).within.run_eq, tight_flatMap_escape]

theorem Numeral.tightens_text (n : Numeral) : Tightens n.text n.text := by
  refine .of_plain fun c hc => ?_
  rcases n.isDigit_or_mem_of_mem_text hc with hdigit | hmem
  · simp only [List.mem_cons, List.not_mem_nil, or_false]
    rintro (rfl | rfl | rfl) <;> cases hdigit
  · have htable : ∀ c ∈ ['-', '+', '.', 'e', 'E'], c ∉ ['"', ' ', '\n'] := by simp
    exact htable c hmem

theorem tightens_intText (n : Int) : Tightens (Scalar.intText n) (Scalar.intText n) := by
  obtain ⟨k, hk, -⟩ := exists_numeral_intText n
  exact hk ▸ k.tightens_text

theorem tightens_null : Tightens ['n', 'u', 'l', 'l'] ['n', 'u', 'l', 'l'] := .of_plain (by simp)

theorem tightens_realText {f : Format} (r : Binary f) :
    Tightens (Scalar.realText r) (Scalar.realText r) := by
  unfold Scalar.realText
  split
  · obtain ⟨n, hn, -⟩ := exists_numeral_numeral r
    exact hn ▸ n.tightens_text
  · exact tightens_null

/-- Nothing is left out of a leaf. -/
theorem tightens_leafText (s : Scalar) : Tightens (leafText s) (leafText s) := by
  -- only the text of a string can hold white space
  cases s with
  | string s => exact tightens_quoted s.toList
  | integer n => exact tightens_intText n.toInt
  | long n => exact tightens_intText n.toInt
  | float r => exact tightens_realText r
  | double r => exact tightens_realText r
  | boolean b => cases b <;> exact .of_plain (by simp [leafText, Scalar.text, Scalar.booleanText])
  | null => exact tightens_null

/-! ## Trees -/

theorem eq_of_mem_newLine {indent level : Nat} {c : Char} (h : c ∈ newLine indent level) :
    c = ' ' ∨ c = '\n' :=
  (List.mem_cons.mp h).symm.imp_left List.eq_of_mem_replicate

theorem tightens_newLine (indent level : Nat) : Tightens (newLine indent level) [] :=
  .of_blank fun _ => eq_of_mem_newLine

theorem spaces_newLine (indent level : Nat) : Spaces (newLine indent level) := fun _ hc =>
  (eq_of_mem_newLine hc).imp_right fun h => .inr (.inr h)

/-- The comma behind a child, if another one follows. -/
theorem tightens_comma (b : Bool) :
    Tightens (if b then [] else [',']) (if b then [] else [',']) := by
  cases b <;> exact .of_plain (by simp)

mutual

/-- What is left of the indented text of a tree is its compact text. -/
theorem tightens_prettyAt (indent level : Nat) :
    ∀ t : Tree Scalar, Tightens (prettyAt indent level t) (compact t)
  | .leaf s => tightens_leafText s
  | .array [] => Tightens.nil.wrap .square
  | .object [] => Tightens.nil.wrap .brace
  | .array (t :: ts) => by
    have hbody := (tightens_prettyItems indent (level + 1) (t :: ts)).append
      (tightens_newLine indent level)
    rw [List.append_nil] at hbody
    exact hbody.wrap .square
  | .object (m :: ms) => by
    have hbody := (tightens_prettyMembers indent (level + 1) (m :: ms)).append
      (tightens_newLine indent level)
    rw [List.append_nil] at hbody
    exact hbody.wrap .brace

theorem tightens_prettyItems (indent level : Nat) :
    ∀ ts : List (Tree Scalar), Tightens (prettyItems indent level ts) (compactItems ts)
  | [] => .nil
  | t :: ts =>
    (((tightens_newLine indent level).append (tightens_prettyAt indent level t)).append
      (tightens_comma ts.isEmpty)).append (tightens_prettyItems indent level ts)

theorem tightens_prettyMembers (indent level : Nat) : ∀ ms : List (String × Tree Scalar),
    Tightens (prettyMembers indent level ms) (compactMembers ms)
  | [] => .nil
  | (name, t) :: ms => by
    have hcolon : Tightens [':', ' '] [':'] := ⟨rfl, rfl⟩
    have hname := (tightens_newLine indent level).append (tightens_quoted name.toList)
    have hmember := (hname.append hcolon).append (tightens_prettyAt indent level t)
    have := (hmember.append (tightens_comma ms.isEmpty)).append
      (tightens_prettyMembers indent level ms)
    simpa [prettyMembers, compactMembers] using this

end

theorem spaces_blank : Spaces [' '] := fun _ hc => .inl (List.mem_singleton.mp hc)

section grammar

variable {f : Scalar → Token}

mutual

/-- The indented text of a tree is one of the grammar, if the texts of its leaves are. -/
theorem valueText_prettyAt (hf : ∀ s, ValueText (leafText s) (.leaf (f s))) (indent level : Nat) :
    ∀ t : Tree Scalar, ValueText (prettyAt indent level t) (t.map f)
  | .leaf s => hf s
  | .array [] => .emptyArray spaces_nil
  | .object [] => .emptyObject spaces_nil
  | .array (t :: ts) => .array (elementsText_prettyItems hf indent (level + 1)
    (spaces_newLine indent level) (t :: ts) (List.cons_ne_nil t ts))
  | .object (m :: ms) => .object (membersText_prettyMembers hf indent (level + 1)
    (spaces_newLine indent level) (m :: ms) (List.cons_ne_nil m ms))

/-- The white space `s` behind the last element is the beginning of the line of the closing
bracket. -/
theorem elementsText_prettyItems (hf : ∀ s, ValueText (leafText s) (.leaf (f s)))
    (indent level : Nat) {s : List Char} (hs : Spaces s) :
    ∀ ts : List (Tree Scalar), ts ≠ [] →
      ElementsText (prettyItems indent level ts ++ s) (Tree.mapItems f ts)
  | [t], _ => by
    have := ElementsText.last (spaces_newLine indent level)
      (valueText_prettyAt hf indent level t) hs
    simpa [prettyItems, Tree.mapItems] using this
  | t :: u :: us, _ => by
    have := ElementsText.cons (spaces_newLine indent level)
      (valueText_prettyAt hf indent level t) spaces_nil
      (elementsText_prettyItems hf indent level hs (u :: us) (List.cons_ne_nil u us))
    simpa [prettyItems, Tree.mapItems] using this

theorem membersText_prettyMembers (hf : ∀ s, ValueText (leafText s) (.leaf (f s)))
    (indent level : Nat) {s : List Char} (hs : Spaces s) :
    ∀ ms : List (String × Tree Scalar), ms ≠ [] →
      MembersText (prettyMembers indent level ms ++ s) (Tree.mapMembers f ms)
  | [(name, t)], _ => by
    have := MembersText.last (spaces_newLine indent level) (chars_escape name.toList) spaces_nil
      spaces_blank (valueText_prettyAt hf indent level t) hs
    simpa [prettyMembers, quoted, Tree.mapMembers] using this
  | (name, t) :: m :: ms, _ => by
    have := MembersText.cons (spaces_newLine indent level) (chars_escape name.toList) spaces_nil
      spaces_blank (valueText_prettyAt hf indent level t) spaces_nil
      (membersText_prettyMembers hf indent level hs (m :: ms) (List.cons_ne_nil m ms))
    simpa [prettyMembers, quoted, Tree.mapMembers] using this

end

end grammar

end Json

/-! ## Documents -/

namespace Document

open Json

/-- The indented text of a document, without the spaces and line feeds outside of its strings, is
the compact text, and both texts are read as the same document: with the tree of the one that was
written, each scalar replaced by what its own text is read as. -/
theorem toPrettyJson_tight {d : Document} (h : d.WellFormed) (indent : Nat) :
    String.ofList (Scan.outside.tight (d.toPrettyJson indent).toList) = d.toJson ∧
    (d.toTree.depth ≤ 512 → ∃ d', parse d.toJson = .ok d' ∧
      parse (d.toPrettyJson indent) = .ok d' ∧ d'.toTree = d.toTree.map Scalar.reread) := by
  constructor
  · rw [toPrettyJson, Tree.toPrettyJson, String.toList_ofList, pretty,
      (tightens_prettyAt indent 0 d.toTree).tight_eq]
    rfl
  · intro hdepth
    choose f hf hfits hscalar using exists_token_leafText
    exact ⟨_, parse_ofList_eq_ok hfits hscalar hdepth (valueText_compact hf d.toTree),
      parse_ofList_eq_ok hfits hscalar hdepth (valueText_prettyAt hf indent 0 d.toTree),
      h.rooted.toTree_ofReading_map Scalar.reread⟩

/-- A member whose name has quotes, a space, a line feed and a backslash, behind an empty array. -/
theorem toPrettyJson_tight_quotes :
    let d := ofReading (.object [("a", .array []), ("\" \n\\", .leaf (.string ": \""))])
    d.WellFormed ∧
    d.toPrettyJson 2 = "\x7b\n  \"a\": [],\n  \"\\\" \\n\\\\\": \": \\\"\"\n\x7d" ∧
    d.toJson = "\x7b\"a\":[],\"\\\" \\n\\\\\":\": \\\"\"\x7d" ∧
    String.ofList (Scan.outside.tight (d.toPrettyJson 2).toList) = d.toJson ∧
    ∃ d', parse d.toJson = .ok d' ∧ parse (d.toPrettyJson 2) = .ok d' ∧ d'.toTree = d.toTree := by
  intro d
  have hd : d.WellFormed := (rooted_ofReading _).wellFormed
  obtain ⟨htight, hread⟩ := toPrettyJson_tight hd 2
  obtain ⟨d', hcompact, hpretty, ht⟩ := hread (by decide)
  exact ⟨hd, by decide, by decide, htight, d', hcompact, hpretty, ht⟩

end Document

end Reshape
