import Reshape.Json.Reading
import Reshape.Proofs.Json.Grammar

/-!
# Brackets outside of strings

A scan tells apart what is in a string and what is not, by the quotes and backslashes alone. In a
text of the grammar it ends outside of strings, and the brackets that it sees there are matched.

## Main definitions

* `Json.Scan`: a scan for strings, and the brackets that it sees outside of them.
* `Json.Matched`: every bracket is closed by one of its kind.
* `Json.Closed`: a text that ends outside of strings and leaves no bracket open.

## Main statements

* `Json.ValueText.closed`, `Json.ElementsText.closed`, `Json.MembersText.closed`.
-/

namespace Reshape.Json

/-! ## Scanning -/

/-- Where a scan stands: outside of strings, inside one, or behind a backslash in one. -/
inductive Scan where
  | outside
  | inside
  | escaped
deriving DecidableEq, Repr

namespace Scan

/-- Where the scan stands behind a character. -/
def step : Scan → Char → Scan
  | outside, c => if c = '"' then inside else outside
  | inside, c => if c = '"' then outside else if c = '\\' then escaped else inside
  | escaped, _ => inside

/-- Where the scan stands behind a text. -/
def run (q : Scan) (s : List Char) : Scan := s.foldl step q

/-- The brackets of a text that stand outside of strings. -/
def brackets : Scan → List Char → List Char
  | _, [] => []
  | q, c :: s =>
    if q = outside ∧ (c = '{' ∨ c = '}' ∨ c = '[' ∨ c = ']') then c :: brackets (q.step c) s
    else brackets (q.step c) s

@[simp] theorem run_nil (q : Scan) : q.run [] = q := rfl

@[simp] theorem run_cons (q : Scan) (c : Char) (s : List Char) :
    q.run (c :: s) = (q.step c).run s := rfl

@[simp] theorem run_append (q : Scan) (s s' : List Char) :
    q.run (s ++ s') = (q.run s).run s' := List.foldl_append

@[simp] theorem brackets_append (q : Scan) (s s' : List Char) :
    q.brackets (s ++ s') = q.brackets s ++ (q.run s).brackets s' := by
  induction s generalizing q with
  | nil => rfl
  | cons c s ih =>
    simp only [List.cons_append, brackets, ih, run_cons]
    split <;> rfl

end Scan

/-- Every bracket is closed by one of its kind, and those between the two are matched among
themselves. -/
inductive Matched : List Char → Prop
  | nil : Matched []
  | append {u v : List Char} : Matched u → Matched v → Matched (u ++ v)
  | wrap {u : List Char} (b : Bracket) : Matched u → Matched (b.opening :: (u ++ [b.closing]))

/-- A text that ends outside of strings and leaves no bracket open, read from outside of strings. -/
structure Closed (w : List Char) : Prop where
  run_eq : Scan.outside.run w = .outside
  matched : Matched (Scan.outside.brackets w)

/-- A text that is inside a string and ends there. -/
structure Within (w : List Char) : Prop where
  run_eq : Scan.inside.run w = .inside
  brackets_eq : Scan.inside.brackets w = []

/-! ## Inside of strings -/

namespace Within

variable {u v : List Char}

theorem nil : Within [] := ⟨rfl, rfl⟩

theorem append (hu : Within u) (hv : Within v) : Within (u ++ v) :=
  ⟨by rw [Scan.run_append, hu.run_eq, hv.run_eq],
    by rw [Scan.brackets_append, hu.run_eq, hu.brackets_eq, hv.brackets_eq, List.nil_append]⟩

theorem singleton {c : Char} (h : c ≠ '"' ∧ c ≠ '\\') : Within [c] :=
  ⟨by simp [Scan.step, h], by simp [Scan.brackets]⟩

theorem escape (c : Char) : Within ['\\', c] :=
  ⟨by simp [Scan.step], by simp [Scan.brackets, Scan.step]⟩

/-- Between quotes. -/
theorem closed (h : Within u) : Closed ('"' :: (u ++ ['"'])) where
  run_eq := by simp [Scan.step, h.run_eq]
  matched := by
    have hbrackets : Scan.outside.brackets ('"' :: (u ++ ['"'])) = [] := by
      simp [Scan.brackets, Scan.step, h.run_eq, h.brackets_eq]
    rw [hbrackets]
    exact .nil

end Within

theorem HexDigit.within {c : Char} {n : Nat} (h : HexDigit c n) : Within [c] := by
  have hlower : ∀ c ∈ "0123456789abcdef".toList, c ≠ '"' ∧ c ≠ '\\' := by simp
  have hupper : ∀ c ∈ "0123456789ABCDEF".toList, c ≠ '"' ∧ c ≠ '\\' := by simp
  rcases h with h | h
  · exact .singleton (hlower c (List.mem_of_getElem? h))
  · exact .singleton (hupper c (List.mem_of_getElem? h))

theorem CodeUnit.within {ds : List Char} {u : Nat} (h : CodeUnit ds u) : Within ds := by
  obtain ⟨a, b, c, d, w, x, y, z, rfl, ha, hb, hc, hd, -⟩ := h
  exact ha.within.append (hb.within.append (hc.within.append hd.within))

theorem UnicodeText.within {ds : List Char} {c : Char} (h : UnicodeText ds c) : Within ds := by
  cases h with
  | unit hu => exact hu.within
  | pair hu _ _ hu' => exact hu.within.append ((Within.escape 'u').append hu'.within)

theorem Chars.within {w m : List Char} (h : Chars w m) : Within w := by
  induction h with
  | nil => exact .nil
  | plain _ hquote hslash _ ih => exact (Within.singleton ⟨hquote, hslash⟩).append ih
  | escape _ _ ih => exact (Within.escape _).append ih
  | unicode hds _ ih => exact (Within.escape 'u').append (hds.within.append ih)

/-! ## Outside of strings -/

namespace Closed

variable {u v w : List Char}

theorem nil : Closed [] := ⟨rfl, .nil⟩

theorem append (hu : Closed u) (hv : Closed v) : Closed (u ++ v) where
  run_eq := by rw [Scan.run_append, hu.run_eq, hv.run_eq]
  matched := by
    rw [Scan.brackets_append, hu.run_eq]
    exact hu.matched.append hv.matched

/-- Between brackets of one kind. -/
theorem wrap (b : Bracket) (hu : Closed u) : Closed (b.opening :: (u ++ [b.closing])) where
  run_eq := by cases b <;> simp [Bracket.opening, Bracket.closing, Scan.step, hu.run_eq]
  matched := by
    have hbrackets : Scan.outside.brackets (b.opening :: (u ++ [b.closing])) =
        b.opening :: (Scan.outside.brackets u ++ [b.closing]) := by
      cases b <;> simp [Bracket.opening, Bracket.closing, Scan.brackets, Scan.step, hu.run_eq]
    rw [hbrackets]
    exact hu.matched.wrap b

/-- Characters that are neither quotes nor brackets. -/
theorem of_plain (h : ∀ c ∈ w, c ∉ ['"', '{', '}', '[', ']']) : Closed w := by
  induction w with
  | nil => exact .nil
  | cons c w ih =>
    have hc : c ≠ '"' ∧ c ≠ '{' ∧ c ≠ '}' ∧ c ≠ '[' ∧ c ≠ ']' := by simpa using h c (by simp)
    have hsingle : Closed [c] := ⟨by simp [Scan.step, hc], by simpa [Scan.brackets, hc] using .nil⟩
    exact hsingle.append (ih fun c hc => h c (by simp [hc]))

end Closed

theorem Spaces.closed {s : List Char} (h : Spaces s) : Closed s :=
  .of_plain fun c hc => by rcases h c hc with rfl | rfl | rfl | rfl <;> decide

theorem IsRow.closed {ds : List Char} (h : IsRow ds) : Closed ds :=
  .of_plain fun c hc => by
    have hdigit := h.2 c hc
    simp only [List.mem_cons, List.not_mem_nil, or_false]
    rintro (rfl | rfl | rfl | rfl | rfl) <;> revert hdigit <;> decide

theorem Power.closed_text (p : Power) : Closed p.text := by
  have hletter : Closed [p.letter] :=
    .of_plain (by rcases p.letter_eq with h | h <;> simp [h])
  have hsign : Closed p.sign :=
    .of_plain (by rcases p.sign_eq with h | h | h <;> simp [h])
  exact hletter.append (hsign.append p.isRow.closed)

theorem Numeral.closed_text (n : Numeral) : Closed n.text := by
  have hsign : Closed n.signText := .of_plain (by unfold signText; split <;> simp)
  have hwhole : Closed n.whole := by
    rcases n.whole_eq with h | h
    · exact .of_plain (by simp [h])
    · exact h.1.closed
  have hfraction : Closed n.fractionText := by
    unfold fractionText
    split
    · next ds hds =>
      have hpoint : Closed ['.'] := .of_plain (by simp)
      exact hpoint.append (n.isRow_fraction ds hds).closed
    · exact .nil
  have hpower : Closed n.powerText := by
    unfold powerText
    split
    · exact Power.closed_text _
    · exact .nil
  exact ((hsign.append hwhole).append hfraction).append hpower

theorem closed_comma : Closed [','] := .of_plain (by simp)

theorem closed_colon : Closed [':'] := .of_plain (by simp)

/-! ## Texts of the grammar -/

mutual

theorem ValueText.closed {w : List Char} {t : Tree Token} : ValueText w t → Closed w
  | .string hw => hw.within.closed
  | .number n => n.closed_text
  | .trueWord => .of_plain (by simp)
  | .falseWord => .of_plain (by simp)
  | .nullWord => .of_plain (by simp)
  | .emptyArray hs => hs.closed.wrap .square
  | .array hw => hw.closed.wrap .square
  | .emptyObject hs => hs.closed.wrap .brace
  | .object hw => hw.closed.wrap .brace

theorem ElementsText.closed {w : List Char} {ts : List (Tree Token)} : ElementsText w ts → Closed w
  | .last hs hw hs' => hs.closed.append (hw.closed.append hs'.closed)
  | .cons hs hw hs' hws =>
    hs.closed.append (hw.closed.append (hs'.closed.append (closed_comma.append hws.closed)))

theorem MembersText.closed {w : List Char} {ms : List (String × Tree Token)} :
    MembersText w ms → Closed w
  | .last h₁ hk h₂ h₃ hw h₄ => by
    have := h₁.closed.append (hk.within.closed.append (h₂.closed.append
      (closed_colon.append (h₃.closed.append (hw.closed.append h₄.closed)))))
    simpa using this
  | .cons h₁ hk h₂ h₃ hw h₄ hws => by
    have := h₁.closed.append (hk.within.closed.append (h₂.closed.append
      (closed_colon.append (h₃.closed.append (hw.closed.append (h₄.closed.append
        (closed_comma.append hws.closed)))))))
    simpa using this

end

end Reshape.Json
