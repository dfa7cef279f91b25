import Reshape.Proofs.Document.RoundTrip
import Reshape.Proofs.Path.Compile
import Reshape.Proofs.Path.Key

/-!
# Numbers in predicates

An operand that is written as a number is a literal. An integer is the scalar that a document has it
as. Any other number is the float nearest to it; a document rounds it to a double, and has it as a
float if the numeral of the narrowed double denotes that double. So a number that is asked for by
its text is found if it is an integer, or if the document has it as a float and the way over the
double leads to the same float.

## Main definitions

* `Json.Numeral.literal`: the literal that a number is as an operand.
* `Path.equalTo`: the path that asks a node whether it is equal to an operand.

## Main statements

* `Operand.ofText_of_toList_eq_text`: numbers are literals.
* `Json.Numeral.literal_eq_scalar_iff`, `Json.Numeral.literal_eq_float`: which literals are what the
  document has.
* `Path.compileStrict_equalTo`, `Document.select_equalTo`: asking for equality.
* `Document.select_numeral`: asking a number for its own text.
-/

namespace Reshape

open Text (isBlank trim trim_eq_self)

/-! ## The text of a number -/

namespace Json.Numeral

variable {n : Numeral}

/-- Nothing in a number is reserved, blank or a bracket. -/
theorem plain_of_mem_text {c : Char} (h : c ∈ n.text) :
    Path.isReserved c = false ∧ isBlank c = false ∧ c ≠ ']' := by
  rcases isDigit_or_mem_of_mem_text h with hdigit | hmem
  · refine ⟨?_, Path.isBlank_of_isDigit hdigit, ?_⟩
    · rw [← Bool.not_eq_true]
      intro hreserved
      simp only [Path.isReserved, Bool.or_eq_true, decide_eq_true_eq] at hreserved
      rcases hreserved with ((((rfl | rfl) | rfl) | rfl) | rfl) | rfl <;> cases hdigit
    · rintro rfl
      cases hdigit
  · have hall : ['-', '+', '.', 'e', 'E'].all
        (fun c => !Path.isReserved c && !isBlank c && c ≠ ']') = true := by decide
    simpa [and_assoc] using List.all_eq_true.mp hall c hmem

theorem dropSign_text (n : Numeral) :
    dropSign n.text = n.whole ++ (n.fractionText ++ n.powerText) := by
  obtain ⟨c, cs, hc, hd⟩ := n.whole_head
  rw [text, List.append_assoc, List.append_assoc]
  unfold signText
  split
  · rfl
  · rw [hc, List.nil_append, List.cons_append, dropSign_cons_of_isDigit hd]

/-- Numbers with the same text are the same integer or the same decimal. -/
theorem toDecimal_eq_of_text_eq {n' : Numeral} (h : n.text = n'.text) :
    (n.IsInteger ↔ n'.IsInteger) ∧ n.toDecimal = n'.toDecimal := by
  constructor
  · rw [← isWhole_text, ← isWhole_text, h]
  · exact Option.some.inj (by rw [← n.read?_text, ← n'.read?_text, h])

end Json.Numeral

/-! ## The shape of a number -/

theorem isDigits_of_isRow {ds : List Char} (h : Json.IsRow ds) : isDigits ds = true := by
  have hall : ∀ c ∈ ds, Text.isDecimalDigit c = true := fun c hc =>
    Text.isDecimalDigit_of_isDigit (h.2 c hc)
  simpa [isDigits, h.1] using hall

namespace Json.Numeral

variable (n : Numeral)

theorem isRow_whole : IsRow n.whole := by
  rcases n.whole_eq with h | ⟨h, -⟩
  · rw [h]
    exact ⟨by simp, by simp [Char.isDigit]⟩
  · exact h

/-- A number has the shape of an integer if it is one: neither a point nor a letter is a digit. -/
theorem isInteger_text : isInteger n.text = true ↔ n.IsInteger := by
  rw [isInteger, dropSign_text]
  constructor
  · intro h
    rw [isDigits, Bool.and_eq_true, List.all_append, List.all_append, Bool.and_eq_true,
      Bool.and_eq_true] at h
    obtain ⟨-, -, hfraction, hpower⟩ := h
    constructor
    · rcases hf : n.fraction with _ | ds
      · rfl
      · simp [fractionText, hf] at hfraction
        exact absurd hfraction.1 (by decide)
    · rcases hp : n.power with _ | p
      · rfl
      · simp [powerText, hp, Power.text] at hpower
        rcases p.letter_eq with h | h <;> rw [h] at hpower <;> exact absurd hpower.1 (by decide)
  · intro h
    rw [fractionText, powerText, h.1, h.2]
    simpa using isDigits_of_isRow n.isRow_whole

/-- Digits of any script end where a row of ASCII digits does, in front of something else. -/
theorem span_isDecimalDigit_append {ds rest : List Char} (h : IsRow ds)
    (hrest : ∀ c ∈ rest.head?, Text.isDecimalDigit c = false) :
    (ds ++ rest).takeWhile Text.isDecimalDigit = ds ∧
      (ds ++ rest).dropWhile Text.isDecimalDigit = rest := by
  have hall : ∀ c ∈ ds, Text.isDecimalDigit c = true := fun c hc =>
    Text.isDecimalDigit_of_isDigit (h.2 c hc)
  rw [List.takeWhile_append_of_pos hall, List.dropWhile_append_of_pos hall]
  cases rest with
  | nil => simp
  | cons c rest => simp [hrest c rfl]

theorem isPower_powerText : isPower n.powerText = true ∧
    ∀ c ∈ n.powerText.head?, Text.isDecimalDigit c = false ∧ c ≠ '.' := by
  unfold powerText
  split
  · next p _ =>
    have hdrop : dropSign (p.sign ++ p.digits) = p.digits := by
      obtain ⟨c, cs, hc, hd⟩ := p.isRow.exists_cons
      rcases p.sign_eq with h | h | h <;> rw [h]
      · rw [hc, List.nil_append, dropSign_cons_of_isDigit hd]
      · rfl
      · rfl
    have hinteger : isInteger (p.sign ++ p.digits) = true := by
      rw [isInteger, hdrop, isDigits_of_isRow p.isRow]
    have hletter : Text.isDecimalDigit p.letter = false ∧ p.letter ≠ '.' := by
      rcases p.letter_eq with h | h <;> rw [h] <;> decide
    rw [Power.text]
    exact ⟨by simp [isPower, p.letter_eq, hinteger], by simpa using hletter⟩
  · exact ⟨rfl, by simp⟩

/-- Every number has the shape of a number. -/
theorem isNumber_text : isNumber n.text = true := by
  obtain ⟨hpower, hhead⟩ := n.isPower_powerText
  rw [isNumber, dropSign_text, fractionText]
  rcases hf : n.fraction with _ | ds
  · obtain ⟨htake, hdrop⟩ := span_isDecimalDigit_append n.isRow_whole fun c hc => (hhead c hc).1
    dsimp only
    rw [List.nil_append, htake, hdrop]
    split
    · next h => exact absurd rfl (hhead '.' (by rw [h]; rfl)).2
    · simp [n.isRow_whole.1, hpower]
  · have hrow := n.isRow_fraction ds hf
    have hpoint : ∀ c ∈ ('.' :: (ds ++ n.powerText)).head?, Text.isDecimalDigit c = false := by
      rintro c ⟨⟩
      decide
    obtain ⟨htake, hdrop⟩ := span_isDecimalDigit_append hrow fun c hc => (hhead c hc).1
    dsimp only
    rw [List.cons_append, (span_isDecimalDigit_append n.isRow_whole hpoint).2]
    simp only [htake, hdrop, hpower]
    simp [hrow.1]

end Json.Numeral

/-! ## Literals -/

namespace Json.Numeral

variable {n : Numeral}

/-- The literal that a number is as an operand: an integer as a document has it, and any other
number as the float nearest to it. -/
def literal (n : Numeral) : Scalar :=
  if n.IsInteger then n.scalar else .float (.ofDecimal .single n.toDecimal)

/-- A number of a document is read as its literal. -/
theorem readLiteral?_text (h : n.Fits) : Operand.readLiteral? n.text = some n.literal := by
  obtain ⟨c, cs, hc, hfirst⟩ := n.text_head
  have hquote : n.text.head? ≠ some '"' := by
    rw [hc]
    rintro ⟨⟩
    exact absurd hfirst (by decide)
  unfold Operand.readLiteral?
  split
  · next hs => exact absurd (by rw [hs]; rfl) hquote
  · by_cases hi : n.IsInteger
    · have hread := Document.readScalar?_text.mpr ⟨h, rfl⟩
      rw [Document.readScalar?, if_pos (isWhole_text.mpr hi)] at hread
      rw [if_pos (n.isInteger_text.mpr hi), hread, literal, if_pos hi]
    · rw [if_neg (mt n.isInteger_text.mp hi), if_pos n.isNumber_text, n.read?_text, literal,
        if_neg hi]
      rfl

/-- The literal of an integer is its scalar. Any other number has a float as its literal, which is
its scalar if that is a float too and narrowing the double nearest to the number makes no other
float of it. -/
theorem literal_eq_scalar_iff (n : Numeral) : n.literal = n.scalar ↔ n.IsInteger ∨
    n.scalar.kind = .float ∧
      (Binary.ofDecimal .double n.toDecimal).cast .single = .ofDecimal .single n.toDecimal := by
  by_cases hi : n.IsInteger
  · simp [literal, hi]
  · rw [literal, scalar, if_neg hi, if_neg hi, Scalar.ofReal]
    simp only [hi, false_or]
    split
    · simp [Scalar.kind, eq_comm]
    · simp [Scalar.kind]

/-- The literal is compared with the scalar as equal only if it is the scalar. -/
theorem same_literal_iff (h : n.Fits) : n.scalar.same n.literal = true ↔ n.literal = n.scalar := by
  by_cases hi : n.IsInteger
  · rw [literal, if_pos hi, scalar, if_pos hi]
    split <;> exact iff_of_true (beq_self_eq_true _) rfl
  · rw [Fits, if_neg hi] at h
    rw [literal, scalar, if_neg hi, if_neg hi]
    rcases Scalar.ofReal_cases h with ⟨r, htag, hr, hvalue⟩ | htag
    · rw [htag]
      have hsign : r.negative = (Binary.ofDecimal .single n.toDecimal).negative := by
        rw [← Binary.negative_shortest hr, ← Binary.negative_ofDecimal .double, hvalue,
          Binary.negative_ofDecimal, Binary.negative_ofDecimal]
      constructor
      · intro hsame
        rw [Binary.eq_of_same hsame hsign]
      · intro heq
        rw [heq]
        exact (Binary.same_self_iff r).mpr (Binary.isNaN_of_isFinite hr)
    · rw [htag]
      exact iff_of_false Bool.false_ne_true (by rintro ⟨⟩)

/-- The numeral of a float is read as that float. -/
theorem literal_eq_float {r : Single} (hr : r.isFinite = true) (h : n.text = r.numeral) :
    n.literal = .float r := by
  obtain ⟨n', hn', hi, hvalue⟩ := exists_numeral_numeral r
  obtain ⟨hinteger, hdecimal⟩ := toDecimal_eq_of_text_eq (h.trans hn'.symm)
  rw [literal, if_neg (mt hinteger.mp hi), hdecimal, hvalue, Binary.ofDecimal_shortest hr]

/-- A number that is written as its scalar is has that scalar as its literal, unless that is a
double. -/
theorem literal_eq_scalar_of_leafText (h : n.Fits) (htext : leafText n.scalar = n.text)
    (hkind : n.scalar.kind ≠ .double) : n.literal = n.scalar := by
  by_cases hi : n.IsInteger
  · rw [literal, if_pos hi]
  · rw [Fits, if_neg hi] at h
    rw [scalar, if_neg hi] at htext hkind ⊢
    rcases Scalar.ofReal_cases h with ⟨r, htag, hr, -⟩ | htag
    · have hnumeral : leafText (.float r) = r.numeral := if_pos hr
      rw [htag, hnumeral] at htext
      rw [htag, literal_eq_float hr htext.symm]
    · exact absurd (by rw [htag]; rfl) hkind

end Json.Numeral

/-- A number is an operand that is a literal. -/
theorem Operand.ofText_of_toList_eq_text {text : String} {n : Json.Numeral}
    (htext : text.toList = n.text) (h : n.Fits) : ofText text = .literal n.literal := by
  obtain ⟨c, cs, hc, hfirst⟩ := n.text_head
  unfold ofText
  split
  · next name hs =>
    rw [htext, hc] at hs
    obtain ⟨rfl, -⟩ := List.cons.inj hs
    exact absurd hfirst (by decide)
  · rw [htext, Json.Numeral.readLiteral?_text h]

namespace Json

namespace Numeral

/-- A number with a point and without a power of ten, which does not begin with a zero. -/
def ofRows (minus : Bool) (whole fraction : List Char)
    (hwhole : IsRow whole ∧ whole.head? ≠ some '0') (hfraction : IsRow fraction) : Numeral where
  minus := minus
  whole := whole
  fraction := some fraction
  power := none
  whole_eq := .inr hwhole
  isRow_fraction := by simpa using hfraction

theorem fits_ofRows {minus : Bool} {whole fraction : List Char}
    {hwhole : IsRow whole ∧ whole.head? ≠ some '0'} {hfraction : IsRow fraction}
    (h : (Binary.ofDecimal .double
      (ofRows minus whole fraction hwhole hfraction).toDecimal).isFinite = true) :
    (ofRows minus whole fraction hwhole hfraction).Fits := by
  rwa [Fits, if_neg (by simp [IsInteger, ofRows])]

end Numeral

end Json

/-! ## Asking for equality -/

namespace Path

/-- The path that keeps a node if it is equal to an operand. -/
def equalTo (text : String) : Path :=
  ⟨false, [⟨.self, .current, some ⟨false, ".", .keyword .equal, text⟩⟩]⟩

/-- The path is written with a word, unless the operand contains what means something else there. -/
theorem compileStrict_equalTo {text : String} (hne : text.toList ≠ [])
    (h : ∀ c ∈ text.toList, isReserved c = false ∧ isBlank c = false ∧ c ≠ ']') :
    compileStrict (".[. eq " ++ text ++ "]") = .ok (equalTo text) := by
  have hchars : (".[. eq " ++ text ++ "]").toList = ['.'] ++ '[' ::
      ((['.'] ++ ((Operator.keyword .equal).written ++ text.toList)) ++ [']']) := by
    simp [String.toList_append, Operator.written, Relation.word]
  have hspace : (' ' :: text.toList).count ' ' < 2 := by
    have hcount : text.toList.count ' ' = 0 :=
      List.count_eq_zero.mpr fun hc => absurd (h ' ' hc).2.1 (by decide)
    simp [hcount]
  have htrim : trim ['.'] = ['.'] ∧ trim text.toList = text.toList :=
    ⟨by decide, trim_eq_self (fun c hc => (h c (List.mem_of_mem_head? hc)).2.1)
      fun c hc => (h c (List.mem_of_mem_getLast? hc)).2.1⟩
  have hcompile := compileStrict_keyword hchars
    (⟨by simp [isPlain], by decide⟩ : _ ∧ readHead? ['.'] = some (.self, .current))
    ⟨by simp, by simp [isReserved]⟩ ⟨hne, fun c hc => ⟨(h c hc).1, (h c hc).2.2⟩⟩
    (splitLastWord?_eq_none hspace)
  rwa [htrim.1, htrim.2, String.ofList_toList] at hcompile

end Path

namespace Document

variable (d : Document) (bindings : Option (Tree Scalar)) (test : Predicate → NodeId → Bool)

/-- A point takes the node itself. -/
theorem walk_current (p : Option Predicate) (id : NodeId) :
    d.walk test [⟨.self, .current, p⟩] id = if passes test p id then [id] else [] := by
  simp only [walk, candidates, axis, List.filter_cons, List.filter_nil]

theorem resolve_current (id : NodeId) : d.resolve bindings test id "." = [d.tree id] := by
  have hpoint : Operand.ofText "." = .path ⟨false, [⟨.self, .current, none⟩]⟩ := by decide +kernel
  rw [resolve, hpoint]
  dsimp only
  rw [walk_current]
  rfl

variable {d}

/-- The path keeps a scalar that is equal to the literal. -/
theorem select_equalTo {text : String} {s r : Scalar} (htree : d.toTree = .leaf s)
    (htext : Operand.ofText text = .literal r) :
    d.select bindings (Path.equalTo text) d.root = if s.same r then [d.root] else [] := by
  have hleft (test) : d.resolve bindings test d.root "." = [.leaf s] := by
    rw [resolve_current, ← htree, toTree]
  have hright (test) : d.resolve bindings test d.root text = [.leaf r] := by
    rw [resolve, htext]
  have htest : d.satisfies bindings ⟨false, ".", .keyword .equal, text⟩ d.root = s.same r := by
    rw [satisfies, satisfiesBy, hleft, hright]
    simp [Operator.compare, Relation.holds]
  rw [select, Path.equalTo, walk_current]
  exact congrArg (fun b : Bool => if b then [d.root] else []) htest

end Document

/-! ## Documents -/

namespace Json

/-- A text that is a number is derived as numbers of the same text only. -/
theorem exists_numeral_of_derives {n : Numeral} {k : Tree Token} (h : Derives n.text k) :
    ∃ n' : Numeral, n'.text = n.text ∧ k = .leaf (.number n') := by
  obtain ⟨sp, w, sp', heq, hsp, hw, hsp'⟩ := h
  obtain ⟨c, cs, hc, hfirst⟩ := n.text_head
  have htext : n.text = w ++ sp' := by
    have hskip := (ValueText.number n).skip_append []
    rw [List.append_nil] at hskip
    rw [← hskip, heq, skip_append_of_spaces hsp, hw.skip_append]
  cases hw with
  | number n' =>
    have hstop : Stops sp' := by
      have := stops_append_of_spaces hsp' stops_nil
      rwa [List.append_nil] at this
    have hscan := scanNumber_text_append n stops_nil
    rw [List.append_nil, htext, scanNumber_text_append n' hstop] at hscan
    exact ⟨n', (Prod.mk.inj hscan).1.trans htext.symm, rfl⟩
  | _ =>
    obtain ⟨rfl, -⟩ := List.cons.inj (hc.symm.trans htext)
    exact absurd hfirst (by decide)

end Json

namespace Document

open Json

/-- A document that is a scalar is not found by the text that it was read from, since that text is
another scalar as an operand. -/
def MissedByText (text : String) : Prop :=
  ∃ d p, parse text = .ok d ∧ Path.compileStrict (".[. eq " ++ text ++ "]") = .ok p ∧
    (∃ s r, d.toTree = .leaf s ∧ Operand.ofText text = .literal r ∧ r ≠ s) ∧
    d.select none p d.root = []

section Numerals

variable {text : String} {n : Numeral} (htext : text.toList = n.text)
include htext

/-- A number is read as the document of its scalar. -/
theorem parse_numeral_eq_ok_iff {d : Document} :
    parse text = .ok d ↔ n.Fits ∧ d = ofReading (.leaf n.scalar) := by
  rw [parse_eq_ok_iff, htext]
  constructor
  · rintro ⟨u, hu, rfl⟩
    obtain ⟨k, hk, -, hfits, rfl⟩ := read_dialect_eq_ok_iff.mp hu
    obtain ⟨n', hn', rfl⟩ := exists_numeral_of_derives hk
    obtain ⟨hfits, hscalar⟩ := readScalar?_text.mp (hn' ▸ readScalar?_text.mpr ⟨hfits, rfl⟩)
    exact ⟨hfits, congrArg (fun s => ofReading (.leaf s)) hscalar⟩
  · rintro ⟨hfits, rfl⟩
    have hderives : Derives n.text (.leaf (.number n)) :=
      ⟨[], n.text, [], by simp, spaces_nil, .number n, spaces_nil⟩
    exact ⟨_, read_dialect_eq_ok_iff.mpr ⟨_, hderives, Nat.zero_le _, hfits, rfl⟩, rfl⟩

/-- The path that asks for a number keeps a number if the literal is the scalar. -/
theorem select_equalTo_numeral (h : n.Fits) (bindings : Option (Tree Scalar)) :
    let d := ofReading (.leaf n.scalar)
    d.select bindings (Path.equalTo text) d.root =
      if n.literal = n.scalar then [d.root] else [] := by
  intro d
  have htree : d.toTree = .leaf n.scalar := toTree_ofReading _
  rw [select_equalTo bindings htree (Operand.ofText_of_toList_eq_text htext h)]
  simp only [Numeral.same_literal_iff h]

theorem compileStrict_equalTo_numeral :
    Path.compileStrict (".[. eq " ++ text ++ "]") = .ok (Path.equalTo text) := by
  refine Path.compileStrict_equalTo ?_ fun c hc => Numeral.plain_of_mem_text (htext ▸ hc)
  obtain ⟨c, cs, hc, -⟩ := n.text_head
  simp [htext, hc]

/-- A number that is read as a document is one scalar, and as an operand one literal. They are the
same scalar if the number is an integer, or if the document holds it as a float and rounding it to a
double on the way makes no other float of it; so it is if the document is written as that text and
holds no double. A comparison of the document with the text that it was read from holds if they are
the same. -/
theorem select_numeral {d : Document} (hd : parse text = .ok d) :
    ∃ s r, d.toTree = .leaf s ∧ Operand.ofText text = .literal r ∧
      (r = s ↔ n.IsInteger ∨ s.kind = .float ∧
        (Binary.ofDecimal .double n.toDecimal).cast .single = .ofDecimal .single n.toDecimal) ∧
      (d.toJson = text → s.kind ≠ .double → r = s) ∧
      ∃ p, Path.compileStrict (".[. eq " ++ text ++ "]") = .ok p ∧
        ∀ bindings, d.select bindings p d.root = if r = s then [d.root] else [] := by
  obtain ⟨hfits, rfl⟩ := (parse_numeral_eq_ok_iff htext).mp hd
  have htree : (ofReading (.leaf n.scalar)).toTree = .leaf n.scalar := toTree_ofReading _
  refine ⟨n.scalar, n.literal, htree, Operand.ofText_of_toList_eq_text htext hfits,
    n.literal_eq_scalar_iff, fun hjson hkind => ?_, _, compileStrict_equalTo_numeral htext,
    select_equalTo_numeral htext hfits⟩
  refine Numeral.literal_eq_scalar_of_leafText hfits ?_ hkind
  rw [← htext, ← hjson, toJson, htree, Tree.toJson, String.toList_ofList, compact]

theorem missedByText_of_literal_ne (h : n.Fits) (hne : n.literal ≠ n.scalar) :
    MissedByText text := by
  refine ⟨_, _, (parse_numeral_eq_ok_iff htext).mpr ⟨h, rfl⟩, compileStrict_equalTo_numeral htext,
    ⟨n.scalar, n.literal, toTree_ofReading _, Operand.ofText_of_toList_eq_text htext h, hne⟩, ?_⟩
  exact (select_equalTo_numeral htext h none).trans (if_neg hne)

end Numerals

/-- The text of a number with a point, as a document and as an operand. -/
theorem select_numeral_point :
    let n := Numeral.ofRows true ['2'] ['5'] (by simp [IsRow]) (by simp [IsRow])
    let d := ofReading (.leaf (.float (.ofDecimal .single ⟨true, 25, -1⟩)))
    "-2.5".toList = n.text ∧ parse "-2.5" = .ok d ∧
      d.select none (Path.equalTo "-2.5") d.root = [d.root] ∧
      ∃ s r, d.toTree = .leaf s ∧ Operand.ofText "-2.5" = .literal r ∧
        (r = s ↔ n.IsInteger ∨ s.kind = .float ∧
          (Binary.ofDecimal .double n.toDecimal).cast .single =
            .ofDecimal .single n.toDecimal) ∧
        (d.toJson = "-2.5" → s.kind ≠ .double → r = s) ∧
        ∃ p, Path.compileStrict (".[. eq " ++ "-2.5" ++ "]") = .ok p ∧
          ∀ bindings, d.select bindings p d.root = if r = s then [d.root] else [] := by
  intro n d
  have htext : "-2.5".toList = n.text := by decide
  have hfits : n.Fits := Numeral.fits_ofRows (by decide +kernel)
  have hscalar : .float (.ofDecimal .single ⟨true, 25, -1⟩) = n.scalar := by decide +kernel
  have hd : parse "-2.5" = .ok d :=
    (parse_numeral_eq_ok_iff htext).mpr ⟨hfits, congrArg (fun s => ofReading (.leaf s)) hscalar⟩
  exact ⟨htext, hd, by decide +kernel, select_numeral htext hd⟩

/-- A number with more digits than a float has is not found by its text, and neither is one that is
a float in two roundings and another float in one. -/
theorem select_numeral_eq_nil :
    MissedByText "3.141592653589793" ∧ MissedByText "8590400000.0000001" := by
  let pi := Numeral.ofRows false ['3'] "141592653589793".toList (by simp [IsRow])
    (by simp [IsRow])
  let tie := Numeral.ofRows false "8590400000".toList "0000001".toList (by simp [IsRow])
    (by simp [IsRow])
  constructor
  · exact missedByText_of_literal_ne (n := pi) (by decide)
      (Numeral.fits_ofRows (by decide +kernel)) (by decide +kernel)
  · exact missedByText_of_literal_ne (n := tie) (by decide)
      (Numeral.fits_ofRows (by decide +kernel)) (by decide +kernel)

end Document

end Reshape
