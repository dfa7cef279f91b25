import Mathlib.Data.List.TakeWhile
import Reshape.Proofs.Path.Grammar

/-!
# Reading conditions

The readers of a comparison and of the text between brackets find a writing of that text if there is
one, and they find the one that is taken. For each of the two this is one statement: either it
succeeds with a taken writing or it fails for want of any.

A comparison with something reserved in it has a sign, which stands at the first reserved character.
In any other comparison the operator is a word, and the reader looks for the last one.

## Main definitions

* `Path.ContainsWord`: there is a word that could be an operator.

## Main statements

* `Path.eq_of_splitLastWord?`, `Path.exists_splitLastWord?`: the last word of a text.
* `Path.splitLastWord?_concat_eq_none_iff`, `Path.exists_lastWord`: texts with and without a word.
* `Path.readComparison?_keyword`: a word with no other one behind it.
* `Path.readComparison?_cases`: comparisons.
* `Path.readCondition?_cases`: the text between brackets.
-/

namespace Reshape

theorem Relation.ofWord?_eq_some_iff {a b : Char} {r : Relation} :
    ofWord? a b = some r ↔ r.word = (a, b) := by
  constructor
  · intro h
    simpa using List.find?_some h
  · intro h
    have hword := ofWord?_word r
    rwa [h] at hword

namespace Path

open Text (trim)

/-! ## Characters of operators -/

/-- Nothing in a word is reserved. -/
theorem isReserved_of_mem_written {r : Relation} {c : Char}
    (h : c ∈ (Operator.keyword r).written) : isReserved c = false := by
  have hall : (Operator.keyword r).written.all (!isReserved ·) = true := by
    cases r <;> decide
  simpa using List.all_eq_true.mp hall c h

/-- Words are told apart by their letters. -/
theorem eq_of_written_eq {r r' : Relation}
    (h : (Operator.keyword r).written = (Operator.keyword r').written) : r = r' := by
  simp only [Operator.written, List.cons.injEq] at h
  refine Option.some.inj ?_
  rw [← Relation.ofWord?_word r, ← Relation.ofWord?_word r', h.2.1, h.2.2.1]

/-- A sign begins with something reserved. -/
theorem exists_sign_eq_cons (r : Relation) :
    ∃ c cs, r.sign = c :: cs ∧ isReserved c = true := by
  cases r <;> exact ⟨_, _, rfl, rfl⟩

/-- No operator contains a parenthesis. -/
theorem not_paren_of_mem_written {op : Operator} {c : Char} (h : c ∈ op.written) :
    c ≠ '(' ∧ c ≠ ')' := by
  have hall : op.written.all (fun c => c ≠ '(' ∧ c ≠ ')') = true := by
    rcases op with r | r <;> cases r <;> decide
  exact of_decide_eq_true (List.all_eq_true.mp hall c h)

/-! ## Words -/

theorem readWord?_eq_some_iff {cs right : List Char} {r : Relation} :
    readWord? cs = some (r, right) ↔ cs = (Operator.keyword r).written ++ right ∧ right ≠ [] := by
  constructor
  · intro h
    unfold readWord? at h
    split at h
    · next a b c rest =>
      obtain ⟨r', hr', h⟩ := Option.map_eq_some_iff.mp h
      cases h
      have hword := Relation.ofWord?_eq_some_iff.mp hr'
      refine ⟨?_, List.cons_ne_nil _ _⟩
      simp [Operator.written, hword]
    · cases h
  · rintro ⟨rfl, hne⟩
    rcases right with _ | ⟨c, rest⟩
    · exact absurd rfl hne
    · simp [Operator.written, readWord?, Relation.ofWord?_word]

/-- What is found is a word between two texts. -/
theorem eq_of_splitLastWord? {cs left right : List Char} {r : Relation}
    (h : splitLastWord? cs = some (left, r, right)) :
    cs = left ++ ((Operator.keyword r).written ++ right) ∧ right ≠ [] := by
  induction cs generalizing left with
  | nil => cases h
  | cons c rest ih =>
    unfold splitLastWord? at h
    split at h
    · next l r' rt hrest =>
      cases h
      obtain ⟨heq, hne⟩ := ih hrest
      exact ⟨congrArg (c :: ·) heq, hne⟩
    · obtain ⟨⟨r', rt⟩, hword, h⟩ := Option.map_eq_some_iff.mp h
      cases h
      exact readWord?_eq_some_iff.mp hword

/-- Where there is a word, one is found, and no other one comes after it. -/
theorem exists_splitLastWord? (left : List Char) (r : Relation) {right : List Char}
    (hright : right ≠ []) :
    ∃ left' r' right', left.length ≤ left'.length ∧
      splitLastWord? (left ++ ((Operator.keyword r).written ++ right)) =
        some (left', r', right') := by
  induction left with
  | nil =>
    have hword : readWord? ((Operator.keyword r).written ++ right) = some (r, right) :=
      readWord?_eq_some_iff.mpr ⟨rfl, hright⟩
    simp only [Operator.written, List.nil_append, List.cons_append] at hword ⊢
    unfold splitLastWord?
    split
    · next l r' rt hrest => exact ⟨_, _, _, Nat.zero_le _, rfl⟩
    · rw [hword]
      exact ⟨_, _, _, Nat.zero_le _, rfl⟩
  | cons c left ih =>
    obtain ⟨left', r', right', hle, hsplit⟩ := ih
    refine ⟨c :: left', r', right', Nat.succ_le_succ hle, ?_⟩
    rw [List.cons_append, splitLastWord?, hsplit]

/-- A word stands between spaces. -/
theorem splitLastWord?_eq_none {cs : List Char} (h : cs.count ' ' < 2) :
    splitLastWord? cs = none := by
  rcases hsplit : splitLastWord? cs with _ | ⟨left, r, right⟩
  · rfl
  · obtain ⟨heq, -⟩ := eq_of_splitLastWord? hsplit
    simp [heq, Operator.written, List.count_cons] at h
    omega

theorem splitLastWord?_cons_eq_none_iff {c : Char} {rest : List Char} :
    splitLastWord? (c :: rest) = none ↔
      splitLastWord? rest = none ∧ readWord? (c :: rest) = none := by
  rw [splitLastWord?]
  split <;> simp_all

/-- Behind the word that is found comes no other one, not even one that begins with its space. -/
theorem splitLastWord?_of_eq_some {cs left right : List Char} {r : Relation}
    (h : splitLastWord? cs = some (left, r, right)) : splitLastWord? (' ' :: right) = none := by
  induction cs generalizing left with
  | nil => cases h
  | cons c rest ih =>
    rw [splitLastWord?] at h
    split at h
    · next hrest =>
      cases h
      exact ih hrest
    · next hrest =>
      obtain ⟨⟨r', right'⟩, hword, h⟩ := Option.map_eq_some_iff.mp h
      cases h
      obtain ⟨heq, -⟩ := readWord?_eq_some_iff.mp hword
      obtain ⟨-, rfl⟩ := List.cons.inj heq
      have hspace := (splitLastWord?_cons_eq_none_iff.mp hrest).1
      exact (splitLastWord?_cons_eq_none_iff.mp hspace).1

/-- A word is the last one if there is no other one from its second space on. -/
theorem splitLastWord?_append (left : List Char) (r : Relation) {right : List Char}
    (hne : right ≠ []) (hlast : splitLastWord? (' ' :: right) = none) :
    splitLastWord? (left ++ ((Operator.keyword r).written ++ right)) = some (left, r, right) := by
  induction left with
  | nil =>
    have hword : readWord? ((Operator.keyword r).written ++ right) = some (r, right) :=
      readWord?_eq_some_iff.mpr ⟨rfl, hne⟩
    have hrest : splitLastWord? (r.word.1 :: r.word.2 :: ' ' :: right) = none := by
      rw [splitLastWord?_cons_eq_none_iff, splitLastWord?_cons_eq_none_iff, hlast]
      cases r <;> exact ⟨⟨rfl, rfl⟩, rfl⟩
    simp only [Operator.written, List.cons_append, List.nil_append] at hword ⊢
    rw [splitLastWord?, hrest, hword]
    rfl
  | cons c left ih => rw [List.cons_append, splitLastWord?, ih]

/-- The last character of a text is behind the word that is found. -/
theorem eq_of_splitLastWord?_concat {cs left right : List Char} {c : Char} {r : Relation}
    (h : splitLastWord? (cs ++ [c]) = some (left, r, right)) :
    ∃ right', right = right' ++ [c] ∧ cs = left ++ ((Operator.keyword r).written ++ right') := by
  obtain ⟨heq, hne⟩ := eq_of_splitLastWord? h
  obtain ⟨right', x, rfl⟩ := (List.eq_nil_or_concat right).resolve_left hne
  rw [List.concat_eq_append, ← List.append_assoc, ← List.append_assoc] at heq
  obtain ⟨rfl, hx⟩ := List.append_inj' heq rfl
  cases hx
  exact ⟨right', List.concat_eq_append, List.append_assoc _ _ _⟩

/-- A word with spaces around it is somewhere in the text. -/
def ContainsWord (cs : List Char) : Prop := ∃ r : Relation, (Operator.keyword r).written <:+: cs

/-- A word has to be followed by something. -/
theorem splitLastWord?_concat_eq_none_iff {cs : List Char} {c : Char} :
    splitLastWord? (cs ++ [c]) = none ↔ ¬ContainsWord cs := by
  constructor
  · rintro hnone ⟨r, left, right, rfl⟩
    have hne : right ++ [c] ≠ [] := by simp
    obtain ⟨_, _, _, -, hsome⟩ := exists_splitLastWord? left r hne
    simp only [List.append_assoc] at hnone
    rw [hnone] at hsome
    cases hsome
  · intro hword
    rcases hsplit : splitLastWord? (cs ++ [c]) with _ | ⟨left, r, right⟩
    · rfl
    · obtain ⟨right', -, rfl⟩ := eq_of_splitLastWord?_concat hsplit
      exact absurd ⟨r, left, right', List.append_assoc _ _ _⟩ hword

/-- A text that contains a word has a last one. -/
theorem exists_lastWord {cs : List Char} (h : ContainsWord cs) :
    ∃ left r right, cs = left ++ ((Operator.keyword r).written ++ right) ∧
      ¬ContainsWord (' ' :: right) := by
  rcases hsplit : splitLastWord? (cs ++ [' ']) with _ | ⟨left, r, right⟩
  · exact absurd h (splitLastWord?_concat_eq_none_iff.mp hsplit)
  · obtain ⟨right', rfl, heq⟩ := eq_of_splitLastWord?_concat hsplit
    have hlast := splitLastWord?_of_eq_some hsplit
    rw [← List.cons_append, splitLastWord?_concat_eq_none_iff] at hlast
    exact ⟨left, r, right', heq, hlast⟩

/-- What no word contains may stand in front of a text. -/
theorem containsWord_cons_iff {c : Char} {cs : List Char} (hc : c ≠ ' ') :
    ContainsWord (c :: cs) ↔ ContainsWord cs := by
  refine exists_congr fun r => ?_
  rw [List.infix_cons_iff, or_iff_right]
  rintro ⟨rest, hrest⟩
  exact hc (List.cons.inj hrest).1.symm

/-! ## Signs -/

theorem eq_of_readSign? {cs right : List Char} {r : Relation}
    (h : readSign? cs = some (r, right)) : cs = r.sign ++ right := by
  unfold readSign? at h
  split at h <;> cases h <;> rfl

/-- A sign is read in front of what is not reserved, so that no shorter one is taken for it. -/
theorem readSign?_sign_append (r : Relation) {right : List Char}
    (h : ∀ c ∈ right, isReserved c = false) : readSign? (r.sign ++ right) = some (r, right) := by
  rcases right with _ | ⟨c, rest⟩
  · cases r <;> rfl
  · have hc : c ≠ '=' := by
      rintro rfl
      exact absurd (h '=' List.mem_cons_self) (by decide)
    cases r <;> simp [Relation.sign, readSign?, hc]

/-! ## Comparisons -/

section Comparisons

variable {c : Comparison} {cs : List Char}

theorem text_of_operator_eq_symbol {r : Relation} (h : c.operator = .symbol r) :
    c.text.takeWhile (!isReserved ·) = c.left.chars ∧
      c.text.dropWhile (!isReserved ·) = r.sign ++ c.right.chars := by
  obtain ⟨x, xs, hsign, hx⟩ := exists_sign_eq_cons r
  have hplain : ∀ a ∈ c.left.chars, (!isReserved a) = true := by
    intro a ha
    rw [c.left.plain a ha]
    rfl
  rw [Comparison.text, h, Operator.written, List.takeWhile_append_of_pos hplain,
    List.dropWhile_append_of_pos hplain, hsign]
  simp [hx]

/-- Where nothing is reserved, operators are words. -/
theorem exists_word_of_text_eq (hcs : ∀ x ∈ cs, isReserved x = false) (h : c.text = cs) :
    ∃ r, c.operator = .keyword r := by
  rcases hop : c.operator with r | r
  · exact ⟨r, rfl⟩
  · obtain ⟨x, xs, hsign, hx⟩ := exists_sign_eq_cons r
    have hmem : x ∈ cs := by
      rw [← h, Comparison.text, hop, Operator.written, hsign]
      simp
    exact absurd (hcs x hmem) (by simp [hx])

/-- Where something is reserved, operators are signs. -/
theorem exists_sign_of_text_eq {x : Char} (hx : x ∈ cs) (hreserved : isReserved x = true)
    (h : c.text = cs) : ∃ r, c.operator = .symbol r := by
  rcases hop : c.operator with r | r
  · have hplain : isReserved x = false := by
      rw [← h, Comparison.text, hop, List.mem_append, List.mem_append] at hx
      rcases hx with hx | hx | hx
      · exact c.left.plain x hx
      · exact isReserved_of_mem_written hx
      · exact c.right.plain x hx
    rw [hreserved] at hplain
    cases hplain
  · exact ⟨r, rfl⟩

/-- Where nothing is reserved, the word of a comparison is behind the first character. -/
theorem exists_word_of_text_eq_cons {first : Char} {rest : List Char}
    (hcs : ∀ x ∈ first :: rest, isReserved x = false) (h : c.text = first :: rest) :
    ∃ left r, c.left.chars = first :: left ∧ c.operator = .keyword r ∧
      rest = left ++ ((Operator.keyword r).written ++ c.right.chars) := by
  obtain ⟨r, hop⟩ := exists_word_of_text_eq hcs h
  rcases hleft : c.left.chars with _ | ⟨x, left⟩
  · exact absurd hleft c.left.ne_nil
  · rw [Comparison.text, hleft, hop] at h
    obtain ⟨rfl, hrest⟩ := List.cons.inj h
    exact ⟨left, r, rfl, hop, hrest.symm⟩

/-- Where nothing is reserved, the last word behind the first character is looked for. -/
theorem readComparison?_cons {first : Char} {rest : List Char}
    (hcs : ∀ x ∈ first :: rest, isReserved x = false) :
    readComparison? (first :: rest) =
      (splitLastWord? rest).map fun s => (first :: s.1, .keyword s.2.1, s.2.2) := by
  have htake : (first :: rest).takeWhile (!isReserved ·) = first :: rest :=
    List.takeWhile_eq_self_iff.mpr fun x hx => by rw [hcs x hx]; rfl
  have hdrop : (first :: rest).dropWhile (!isReserved ·) = [] :=
    List.dropWhile_eq_nil_iff.mpr fun x hx => by rw [hcs x hx]; rfl
  rw [readComparison?, htake, hdrop]

/-- A word between two texts without anything reserved is read if no other one comes after it. -/
theorem readComparison?_keyword {left right : List Char} (r : Relation)
    (hleft : left ≠ [] ∧ ∀ x ∈ left, isReserved x = false)
    (hright : right ≠ [] ∧ ∀ x ∈ right, isReserved x = false)
    (hlast : splitLastWord? (' ' :: right) = none) :
    readComparison? (left ++ ((Operator.keyword r).written ++ right)) =
      some (left, .keyword r, right) := by
  have hplain : ∀ x ∈ left ++ ((Operator.keyword r).written ++ right), isReserved x = false := by
    simp only [List.mem_append]
    rintro x (hx | hx | hx)
    · exact hleft.2 x hx
    · exact isReserved_of_mem_written hx
    · exact hright.2 x hx
  obtain ⟨first, left, rfl⟩ := List.exists_cons_of_ne_nil hleft.1
  rw [List.cons_append] at hplain ⊢
  rw [readComparison?_cons hplain, splitLastWord?_append left r hright.1 hlast]
  rfl

/-- The cases where nothing is reserved: the last word is taken. -/
theorem readComparison?_cases_of_plain (hcs : ∀ x ∈ cs, isReserved x = false) :
    (∃ c : Comparison, c.Taken cs ∧
      readComparison? cs = some (c.left.chars, c.operator, c.right.chars)) ∨
    ((∀ c : Comparison, c.text ≠ cs) ∧ readComparison? cs = none) := by
  rcases cs with _ | ⟨first, rest⟩
  · refine .inr ⟨fun c hc => c.left.ne_nil ?_, rfl⟩
    exact (List.append_eq_nil_iff.mp hc).1
  · rw [readComparison?_cons hcs]
    rcases hsplit : splitLastWord? rest with _ | ⟨left, r, right⟩
    · refine .inr ⟨fun c hc => ?_, rfl⟩
      obtain ⟨left, r, -, -, rfl⟩ := exists_word_of_text_eq_cons hcs hc
      obtain ⟨_, _, _, -, hsome⟩ := exists_splitLastWord? left r c.right.ne_nil
      rw [hsplit] at hsome
      cases hsome
    · obtain ⟨hrest, hright⟩ := eq_of_splitLastWord? hsplit
      have hmem : ∀ x ∈ left ++ ((Operator.keyword r).written ++ right), isReserved x = false := by
        rw [← hrest]
        exact fun x hx => hcs x (List.mem_cons_of_mem _ hx)
      refine .inl ⟨⟨⟨first :: left, List.cons_ne_nil _ _, ?_⟩, .keyword r, ⟨right, hright, ?_⟩⟩,
        ⟨congrArg (first :: ·) hrest.symm, fun c' hc' => ?_⟩, rfl⟩
      · intro x hx
        rcases List.mem_cons.mp hx with rfl | hx
        · exact hcs x List.mem_cons_self
        · exact hmem x (List.mem_append_left _ hx)
      · exact fun x hx => hmem x (List.mem_append_right _ (List.mem_append_right _ hx))
      · obtain ⟨left', r', hleft', hop', hrest'⟩ := exists_word_of_text_eq_cons hcs hc'
        obtain ⟨l, _, _, hle, hsome⟩ := exists_splitLastWord? left' r' c'.right.ne_nil
        rw [← hrest', hsplit] at hsome
        cases hsome
        rcases Nat.lt_or_eq_of_le hle with hlt | heq
        · refine .inr ⟨by rw [hop']; rfl, fun _ => ?_⟩
          rw [hleft']
          exact Nat.succ_lt_succ hlt
        · obtain ⟨rfl, htail⟩ := List.append_inj (hrest'.symm.trans hrest) heq
          obtain ⟨hwritten, htail⟩ := List.append_inj htail rfl
          refine .inl (Comparison.ext (Operand.ext hleft') ?_ (Operand.ext htail))
          rw [hop', eq_of_written_eq hwritten]

/-- Where something is reserved, the sign of a comparison is read there. -/
theorem exists_readSign?_of_text_eq {x : Char} (hx : x ∈ cs) (hreserved : isReserved x = true)
    (h : c.text = cs) : ∃ r, c.operator = .symbol r ∧
      c.left.chars = cs.takeWhile (!isReserved ·) ∧
        readSign? (cs.dropWhile (!isReserved ·)) = some (r, c.right.chars) := by
  obtain ⟨r, hop⟩ := exists_sign_of_text_eq hx hreserved h
  obtain ⟨htake, hdrop⟩ := text_of_operator_eq_symbol hop
  rw [h] at htake hdrop
  refine ⟨r, hop, htake.symm, ?_⟩
  rw [hdrop, readSign?_sign_append r c.right.plain]

/-- The cases where something is reserved: it has to be the only sign. -/
theorem readComparison?_cases_of_reserved {x : Char} (hx : x ∈ cs)
    (hreserved : isReserved x = true) :
    (∃ c : Comparison, c.Taken cs ∧
      readComparison? cs = some (c.left.chars, c.operator, c.right.chars)) ∨
    ((∀ c : Comparison, c.text ≠ cs) ∧ readComparison? cs = none) := by
  have happend := List.takeWhile_append_dropWhile (p := (!isReserved ·)) (l := cs)
  have hplain : ∀ y ∈ cs.takeWhile (!isReserved ·), isReserved y = false := by
    intro y hy
    simpa using List.mem_takeWhile_imp hy
  have hdrop : cs.dropWhile (!isReserved ·) ≠ [] := by
    intro hnil
    simpa [hreserved] using List.dropWhile_eq_nil_iff.mp hnil x hx
  have hsign := fun (c : Comparison) (hc : c.text = cs) =>
    exists_readSign?_of_text_eq hx hreserved hc
  rw [readComparison?]
  generalize cs.takeWhile (!isReserved ·) = left at *
  generalize cs.dropWhile (!isReserved ·) = sign at *
  rcases left with _ | ⟨first, rest⟩
  · refine .inr ⟨fun c hc => ?_, rfl⟩
    obtain ⟨_, -, hleft, -⟩ := hsign c hc
    exact c.left.ne_nil hleft
  · rcases sign with _ | ⟨y, ys⟩
    · exact absurd rfl hdrop
    · dsimp only
      rcases hread : readSign? (y :: ys) with _ | ⟨r, right⟩
      · refine .inr ⟨fun c hc => ?_, rfl⟩
        obtain ⟨_, -, -, hsome⟩ := hsign c hc
        rw [hread] at hsome
        cases hsome
      · dsimp only
        split
        · next hright =>
          have hall : ∀ z ∈ right, isReserved z = false := by simpa using hright.2
          refine .inl ⟨⟨⟨first :: rest, List.cons_ne_nil _ _, hplain⟩, .symbol r,
            ⟨right, hright.1, hall⟩⟩, ⟨?_, fun c hc => .inl ?_⟩, rfl⟩
          · rw [← happend, eq_of_readSign? hread]
            rfl
          · obtain ⟨r', hop, hleft, hsome⟩ := hsign c hc
            rw [hread] at hsome
            cases hsome
            exact Comparison.ext (Operand.ext hleft) hop rfl
        · next hright =>
          refine .inr ⟨fun c hc => hright ?_, rfl⟩
          obtain ⟨_, -, -, hsome⟩ := hsign c hc
          rw [hread] at hsome
          cases hsome
          exact ⟨c.right.ne_nil, by simpa using c.right.plain⟩

/-- The comparison of a text that is taken is read. If none is read, there is none. -/
theorem readComparison?_cases (cs : List Char) :
    (∃ c : Comparison, c.Taken cs ∧
      readComparison? cs = some (c.left.chars, c.operator, c.right.chars)) ∨
    ((∀ c : Comparison, c.text ≠ cs) ∧ readComparison? cs = none) := by
  by_cases hcs : ∀ x ∈ cs, isReserved x = false
  · exact readComparison?_cases_of_plain hcs
  · obtain ⟨x, hx⟩ := not_forall.mp hcs
    obtain ⟨hx, hreserved⟩ := Classical.not_imp.mp hx
    exact readComparison?_cases_of_reserved hx (eq_true_of_ne_false hreserved)

end Comparisons

/-! ## Brackets -/

/-- There is no opening parenthesis in a comparison, and it does not end with a closing one. -/
theorem Comparison.not_paren_of_mem_text (c : Comparison) {x : Char} (hx : x ∈ c.text) :
    x ≠ '(' ∧ x ≠ ')' := by
  have hoperand : ∀ y, isReserved y = false → y ≠ '(' ∧ y ≠ ')' := by
    intro y hy
    constructor <;>
    · rintro rfl
      exact absurd hy (by decide)
  rw [Comparison.text, List.mem_append, List.mem_append] at hx
  rcases hx with hx | hx | hx
  · exact hoperand x (c.left.plain x hx)
  · exact not_paren_of_mem_written hx
  · exact hoperand x (c.right.plain x hx)

theorem append_dropNot (cs : List Char) :
    (if (dropNot cs).2 then "not(".toList else []) ++ (dropNot cs).1 = cs := by
  unfold dropNot
  split <;> rfl

theorem append_dropClosing (cs : List Char) :
    ((dropClosing cs).1 ++ if (dropClosing cs).2 then [')'] else []) = cs := by
  unfold dropClosing
  split
  · next h =>
    obtain ⟨_, hlast⟩ := List.getLast?_eq_some_iff.mp h
    rw [hlast]
    simp
  · exact List.append_nil cs

/-- Without an opening parenthesis there is no `not(` to drop. -/
theorem dropNot_of_not_mem {cs : List Char} (h : '(' ∉ cs) : dropNot cs = (cs, false) := by
  unfold dropNot
  split
  · simp at h
  · rfl

theorem dropClosing_of_not_mem {cs : List Char} (h : ')' ∉ cs) : dropClosing cs = (cs, false) := by
  unfold dropClosing
  rw [if_neg]
  intro hlast
  exact h (List.mem_of_getLast? hlast)

namespace Brackets

variable (b : Brackets)

theorem dropNot_text :
    dropNot b.text = (b.comparison.text ++ if b.closed then [')'] else [], b.opened) := by
  rcases b with ⟨_ | _, c, closed⟩
  · have hnot : '(' ∉ c.text ++ if closed then [')'] else [] := by
      intro hmem
      rcases List.mem_append.mp hmem with hmem | hmem
      · exact (c.not_paren_of_mem_text hmem).1 rfl
      · cases closed <;> simp at hmem
    exact dropNot_of_not_mem hnot
  · rfl

theorem dropClosing_text :
    dropClosing (b.comparison.text ++ if b.closed then [')'] else []) =
      (b.comparison.text, b.closed) := by
  rcases b with ⟨opened, c, _ | _⟩
  · rw [if_neg Bool.false_ne_true, List.append_nil]
    exact dropClosing_of_not_mem fun hmem => (c.not_paren_of_mem_text hmem).2 rfl
  · simp [dropClosing]

/-- What is dropped from the text between brackets is what is opened and closed. -/
theorem eq_dropped : b.opened = (dropNot b.text).2 ∧
    b.comparison.text = (dropClosing (dropNot b.text).1).1 ∧
      b.closed = (dropClosing (dropNot b.text).1).2 := by
  rw [dropNot_text]
  dsimp only
  rw [dropClosing_text]
  exact ⟨rfl, rfl, rfl⟩

/-- The text between brackets says whether it is balanced. -/
theorem Balanced.of_text_eq {b b' : Brackets} (hb : b.Balanced) (h : b.text = b'.text) :
    b'.Balanced := by
  intro hopened
  rw [b'.eq_dropped.1, ← h, ← b.eq_dropped.1] at hopened
  rw [b'.eq_dropped.2.2, ← h, ← b.eq_dropped.2.2]
  exact hb hopened

end Brackets

/-- The condition of trimmed operands. -/
def Brackets.condition (b : Brackets) : Condition :=
  ⟨b.opened, b.closed, trim b.comparison.left.chars, b.comparison.operator,
    trim b.comparison.right.chars⟩

theorem Brackets.predicate?_condition_of_balanced {b : Brackets} (h : b.Balanced) :
    b.condition.predicate? = some b.predicate := by
  have hfits : ¬(b.opened = true ∧ ¬b.closed = true) := fun hopen => hopen.2 (h hopen.1)
  exact if_neg hfits

theorem Brackets.predicate?_condition_of_not_balanced {b : Brackets} (h : ¬b.Balanced) :
    b.condition.predicate? = none :=
  if_pos (Classical.not_imp.mp h)

/-- A taken writing of the text between brackets is read. If none is read, there is none. -/
theorem readCondition?_cases (cs : List Char) :
    (∃ b : Brackets, b.Taken cs ∧ readCondition? cs = some b.condition) ∨
    ((∀ b : Brackets, b.text ≠ cs) ∧ readCondition? cs = none) := by
  rcases hnot : dropNot cs with ⟨inner, opened⟩
  rcases hclosing : dropClosing inner with ⟨comparison, closed⟩
  have hparts : ∀ b : Brackets, b.text = cs →
      b.opened = opened ∧ b.comparison.text = comparison ∧ b.closed = closed := by
    intro b hb
    have hdropped := b.eq_dropped
    rw [hb, hnot] at hdropped
    dsimp only at hdropped
    rwa [hclosing] at hdropped
  have htext : (if opened then "not(".toList else []) ++
      (comparison ++ if closed then [')'] else []) = cs := by
    have happend := append_dropNot cs
    have happend' := append_dropClosing inner
    rw [hnot] at happend
    rw [hclosing] at happend'
    rw [happend', happend]
  rw [readCondition?, hnot]
  dsimp only
  rw [hclosing]
  dsimp only
  rcases readComparison?_cases comparison with ⟨c, hc, hread⟩ | ⟨hnone, hread⟩
  · refine .inl ⟨⟨opened, c, closed⟩, ⟨?_, fun b' hb' => ?_⟩, by rw [hread]; rfl⟩
    · rw [Brackets.text, hc.1]
      exact htext
    · obtain ⟨hopened, hcomparison, hclosed⟩ := hparts b' hb'
      rcases hc.2 b'.comparison hcomparison with heq | hbeats
      · exact .inl (Brackets.ext hopened heq hclosed)
      · exact .inr hbeats
  · refine .inr ⟨fun b hb => ?_, by rw [hread]; rfl⟩
    exact hnone b.comparison (hparts b hb).2.1

/-- A comparison that contains no parenthesis is the condition. -/
theorem readCondition?_of_readComparison? {cs left right : List Char} {op : Operator}
    (hparen : '(' ∉ cs ∧ ')' ∉ cs) (h : readComparison? cs = some (left, op, right)) :
    readCondition? cs = some ⟨false, false, trim left, op, trim right⟩ := by
  rw [readCondition?, dropNot_of_not_mem hparen.1]
  dsimp only
  rw [dropClosing_of_not_mem hparen.2, h]
  rfl

end Path

end Reshape
