import Reshape.Proofs.Document.Subtree
import Reshape.Proofs.Path.Compile
import Reshape.Proofs.Path.Place
import Reshape.Proofs.Text.Blank

/-!
# Quoted texts in predicates

A text in quotes is an operand that stands for itself, whatever it contains. But quotes mean nothing
to the grammar of steps, which looks for the operator first: a word between spaces inside of the
quotes is taken for the operator, if it is the last one in the predicate.

## Main definitions

* `Path.childrenWhere`, `Path.named`: the children with a condition, and those with a name.

## Main statements

* `Operand.ofText_quoted`: a text in quotes as an operand.
* `Path.compileStrict_named_of_append`: a condition with a quoted text, cut at its last word.
* `Document.select_named`, `Document.select_named_quoted`: asking for a name.
-/

namespace Reshape

open Text (isBlank trim trim_eq_self)

/-- A text in quotes stands for itself. -/
theorem Operand.ofText_quoted (s : String) : ofText ("\"" ++ s ++ "\"") = .literal (.string s) := by
  have hchars : ("\"" ++ s ++ "\"").toList = '"' :: (s.toList ++ ['"']) := by simp
  rw [ofText, hchars]
  simp [readLiteral?]

namespace Path

/-- The children of which a word holds between two operands. -/
def childrenWhere (left : String) (r : Relation) (right : String) : Path :=
  ⟨false, [⟨.self, .wildcard, some ⟨false, left, .keyword r, right⟩⟩]⟩

/-- The children whose member `name` is a text. -/
def named (s : String) : Path := childrenWhere "name" .equal ("\"" ++ s ++ "\"")

/-- Nothing in the text is reserved, and no bracket closes the predicate. -/
def Unreserved (s : String) : Prop := ∀ c ∈ s.toList, isReserved c = false ∧ c ≠ ']'

section Named

variable {s : String} (hs : Unreserved s)
include hs

/-- The condition is cut at its last word, wherever that is. -/
theorem compileStrict_named_of_append {left right : List Char} {r : Relation}
    (h : "name eq \"".toList ++ (s.toList ++ ['"']) =
      left ++ ((Operator.keyword r).written ++ right))
    (hleft : left ≠ []) (hright : right ≠ []) (hlast : splitLastWord? (' ' :: right) = none) :
    compileStrict ("*[name eq \"" ++ s ++ "\"]") =
      .ok (childrenWhere (.ofList (trim left)) r (.ofList (trim right))) := by
  have hfront : "name eq \"".toList.all (fun c => !isReserved c && c ≠ ']') = true := by decide
  have hplain : ∀ c ∈ left ++ ((Operator.keyword r).written ++ right),
      isReserved c = false ∧ c ≠ ']' := by
    rw [← h]
    simp only [List.mem_append, List.mem_singleton]
    rintro c (hc | hc | rfl)
    · simpa using List.all_eq_true.mp hfront c hc
    · exact hs c hc
    · decide
  have htext : ("*[name eq \"" ++ s ++ "\"]").toList =
      ['*'] ++ '[' :: ((left ++ ((Operator.keyword r).written ++ right)) ++ [']']) := by
    rw [← h]
    simp
  exact compileStrict_keyword htext ⟨by simp [isPlain], by decide⟩
    ⟨hleft, fun c hc => hplain c (by simp [hc])⟩ ⟨hright, fun c hc => hplain c (by simp [hc])⟩ hlast

/-- Without a word in the quotes the predicate is what it looks like. -/
theorem compileStrict_named (hword : ¬ContainsWord s.toList) :
    compileStrict ("*[name eq \"" ++ s ++ "\"]") = .ok (named s) := by
  have hlast : splitLastWord? (' ' :: ('"' :: (s.toList ++ ['"']))) = none := by
    rw [← List.cons_append, ← List.cons_append, splitLastWord?_concat_eq_none_iff]
    rintro ⟨r, hinfix⟩
    refine hword ((containsWord_cons_iff (c := '"') (by decide)).mp ⟨r, ?_⟩)
    rcases List.infix_cons_iff.mp hinfix with ⟨rest, hrest⟩ | hinfix
    · cases r <;> simp [Operator.written, Relation.word] at hrest
    · exact hinfix
  have htrim : trim ('"' :: (s.toList ++ ['"'])) = '"' :: (s.toList ++ ['"']) := by
    refine trim_eq_self (by simp [isBlank]) ?_
    rw [← List.cons_append, List.getLast?_concat]
    simp [isBlank]
  have hquoted : String.ofList ('"' :: (s.toList ++ ['"'])) = "\"" ++ s ++ "\"" := by
    rw [← String.toList_inj]
    simp
  have hsplit : "name eq \"".toList ++ (s.toList ++ ['"']) =
      "name".toList ++ ((Operator.keyword .equal).written ++ '"' :: (s.toList ++ ['"'])) := rfl
  have hcompile := compileStrict_named_of_append hs hsplit (by simp) (by simp) hlast
  have hname : trim "name".toList = "name".toList := by decide
  rwa [htrim, hquoted, hname, String.ofList_toList] at hcompile

/-- The last word in the quotes is the operator. -/
theorem compileStrict_named_of_word {before after : List Char} {r : Relation}
    (h : s.toList = before ++ ((Operator.keyword r).written ++ after))
    (hlast : ¬ContainsWord (' ' :: after)) :
    compileStrict ("*[name eq \"" ++ s ++ "\"]") =
      .ok (childrenWhere (.ofList (trim ("name eq \"".toList ++ before))) r
        (.ofList (trim (after ++ ['"'])))) := by
  rw [← splitLastWord?_concat_eq_none_iff (c := '"'), List.cons_append] at hlast
  exact compileStrict_named_of_append hs (by simp [h]) (by simp) (by simp) hlast

end Named

/-- The operands of a condition with a word in the quotes are not the name and the text. -/
theorem childrenWhere_ne_named {before : List Char} {r : Relation} {right s : String} :
    childrenWhere (.ofList (trim ("name eq \"".toList ++ before))) r right ≠ named s := by
  intro h
  have hleft : String.ofList (trim ("name eq \"".toList ++ before)) = "name" := by
    simp only [childrenWhere, named] at h
    grind
  have hquote : '"' ∈ trim ("name eq \"".toList ++ before) :=
    Text.mem_trim (by simp) (by decide)
  rw [← String.toList_ofList (l := trim _), hleft] at hquote
  simp at hquote

end Path

namespace Document

open Reshape.Path (ContainsWord childrenWhere named Unreserved)

section Names

variable {d : Document}

/-- A word between a selection of one node and a literal asks the scalar of the node. -/
theorem compare_keyword_singleton (r : Relation) (t : Tree Scalar) (s : Scalar) :
    (Operator.keyword r).compare [t] [.leaf s] = t.leaf?.any (r.holds · s) := by
  cases t <;> rfl

theorem resolve_name (bindings : Option (Tree Scalar)) (test : Predicate → NodeId → Bool)
    (c : NodeId) :
    d.resolve bindings test c "name" = (d.childByName? c "name").toList.map d.tree := by
  have hname : Operand.ofText "name" = .path ⟨false, [Path.keyStep "name"]⟩ := by decide +kernel
  have hchild : d.namedChild? c "name" = d.childByName? c "name" := by
    have hinteger : ¬isInteger "name".toList = true := by decide
    rw [namedChild?, if_neg hinteger]
  rw [resolve, hname]
  dsimp only
  rw [walk_keyStep, ← hchild]
  rfl

theorem any_holds_string (a : Option Scalar) (s : String) :
    a.any (Relation.equal.holds · (.string s)) = decide (a = some (.string s)) := by
  rcases a with _ | a
  · rfl
  · cases a with
    | string t =>
      have hsame : (Scalar.string t).same (.string s) = decide (t = s) := rfl
      simp [Relation.holds, hsame]
    | _ => rfl

/-- The children of which the member `name` is a text. -/
theorem select_named (h : d.WellFormed) (bindings : Option (Tree Scalar)) (s : String)
    (n : NodeId) : d.select bindings (named s) n = (d.children n).filter fun c =>
      (d.childByName? c "name").bind d.scalar? = some (.string s) := by
  have hright (test) (c : NodeId) :
      d.resolve bindings test c ("\"" ++ s ++ "\"") = [.leaf (.string s)] := by
    rw [resolve, Operand.ofText_quoted]
  have htest (c : NodeId) : d.satisfies bindings
      ⟨false, "name", .keyword .equal, "\"" ++ s ++ "\""⟩ c =
        decide ((d.childByName? c "name").bind d.scalar? = some (.string s)) := by
    rw [satisfies, satisfiesBy, hright, resolve_name]
    rcases d.childByName? c "name" with _ | m
    · rfl
    · simp only [Option.toList_some, List.map_singleton, compare_keyword_singleton,
        h.rooted.forest.leaf?_tree, Bool.bne_false, Option.bind_some]
      exact any_holds_string _ s
  simp only [select, named, childrenWhere, walk, candidates, origin]
  exact List.filter_congr fun c _ => htest c

end Names

/-- Asking the children for a name in quotes. The text is compiled in any case. If it contains no
word, the predicate compares the member `name` with the text, and the children that are selected are
those of which that member is the text. A word in the text is taken for the operator, and the
predicate is cut there, at the last one. -/
theorem select_named_quoted {s : String} (hs : Unreserved s) :
    ∃ p, Path.compileStrict ("*[name eq \"" ++ s ++ "\"]") = .ok p ∧
      (p = named s ↔ ¬ContainsWord s.toList) ∧
      (¬ContainsWord s.toList → ∀ d : Document, d.WellFormed → ∀ bindings n,
        d.select bindings p n = (d.children n).filter fun c =>
          (d.childByName? c "name").bind d.scalar? = some (.string s)) ∧
      ∀ before r after, s.toList = before ++ ((Operator.keyword r).written ++ after) →
        ¬ContainsWord (' ' :: after) →
          p = childrenWhere (.ofList (trim ("name eq \"".toList ++ before))) r
            (.ofList (trim (after ++ ['"']))) := by
  by_cases hword : ContainsWord s.toList
  · obtain ⟨before, r, after, hsplit, hlast⟩ := Path.exists_lastWord hword
    have hcompile := Path.compileStrict_named_of_word hs hsplit hlast
    refine ⟨_, hcompile, iff_of_false Path.childrenWhere_ne_named (not_not_intro hword),
      fun hnot => absurd hword hnot, fun before' r' after' hsplit' hlast' => ?_⟩
    rw [Path.compileStrict_named_of_word hs hsplit' hlast'] at hcompile
    exact (Except.ok.inj hcompile).symm
  · refine ⟨_, Path.compileStrict_named hs hword, iff_of_true rfl hword,
      fun _ d hd bindings n => select_named hd bindings s n, fun before r after hsplit _ => ?_⟩
    exact absurd ⟨r, before, after, hsplit ▸ List.append_assoc _ _ _⟩ hword

/-- A name with a quote, a slash, an opening bracket and something like a word. -/
theorem select_named_quoted_title :
    let s := "\"a/[ eq"
    let d := ofReading (.array [.object [("name", .leaf (.string s))],
      .object [("name", .leaf (.string "a"))], .leaf (.string s)])
    Unreserved s ∧ d.WellFormed ∧ ¬ContainsWord s.toList ∧
      ((d.children 0).filter fun c =>
        (d.childByName? c "name").bind d.scalar? = some (.string s)) = [1] ∧
      ∃ p, Path.compileStrict ("*[name eq \"" ++ s ++ "\"]") = .ok p ∧
        (p = named s ↔ ¬ContainsWord s.toList) ∧
        (¬ContainsWord s.toList → ∀ d : Document, d.WellFormed → ∀ bindings n,
          d.select bindings p n = (d.children n).filter fun c =>
            (d.childByName? c "name").bind d.scalar? = some (.string s)) ∧
        ∀ before r after, s.toList = before ++ ((Operator.keyword r).written ++ after) →
          ¬ContainsWord (' ' :: after) →
            p = childrenWhere (.ofList (trim ("name eq \"".toList ++ before))) r
              (.ofList (trim (after ++ ['"']))) := by
  intro s d
  have hs : Unreserved s := by simp [Unreserved, s, Path.isReserved]
  have hword : ¬ContainsWord s.toList := by
    rintro ⟨r, hr⟩
    cases r <;> revert hr <;> decide +kernel
  have hd : d.WellFormed := (rooted_ofReading _).wellFormed
  exact ⟨hs, hd, hword, by decide +kernel, select_named_quoted hs⟩

/-- A name that contains a word in quotes is not found. -/
theorem select_named_word :
    let s := "x eq y"
    let d := ofReading (.array [.object [("name", .leaf (.string s))]])
    Unreserved s ∧ d.WellFormed ∧ (d.childByName? 1 "name").bind d.scalar? = some (.string s) ∧
      ∃ p, Path.compileStrict ("*[name eq \"" ++ s ++ "\"]") = .ok p ∧ p ≠ named s ∧
        p = childrenWhere "name eq \"x" .equal "y\"" ∧ 1 ∈ d.children 0 ∧
        d.select none p 0 = [] := by
  intro s d
  refine ⟨by simp [Unreserved, s, Path.isReserved], (rooted_ofReading _).wellFormed, by decide, _,
    ?_, ?_, rfl, by decide, by decide +kernel⟩
  · decide +kernel
  · decide

end Document

end Reshape
