import Reshape.Proofs.Document.Parse
import Reshape.Proofs.Json.Written

/-!
# Writing a document and reading it again

The compact text of a document is read as the document with every scalar replaced by what its text
is read as. A document that was read from a text comes back unchanged.

## Main definitions

* `Scalar.reread`: what the text of a scalar is read as.

## Main statements

* `Json.exists_token_leafText`, `Json.valueText_compact`: the text of a tree in the grammar.
* `Scalar.reread_scalar`: what was read is read again as the same.
* `Document.parse_toJson`: a text that was written is read as what was written.
-/

namespace Reshape

namespace Scalar

/-- What the text of a real is read as: a real again, tagged by the double that the text denotes, or
null for a real without a numeral. -/
def rereadReal {f : Format} (r : Binary f) : Scalar :=
  if r.isFinite then ((Binary.read? .double r.numeral).map ofReal).getD .null else .null

/-- What the text of a scalar is read as. -/
def reread : Scalar → Scalar
  | long n =>
    if Int32.minValue.toInt ≤ n.toInt ∧ n.toInt ≤ Int32.maxValue.toInt then
      integer (.ofInt n.toInt)
    else long n
  | float r => rereadReal r
  | double r => rereadReal r
  | s => s

end Scalar

namespace Json

/-- A zero that is reduced has no power of ten. -/
theorem coefficient_reduce_ne_zero_or (d : Decimal) :
    d.reduce.coefficient ≠ 0 ∨ d.reduce.exponent ≤ 0 := by
  by_cases h : d.coefficient = 0
  · simp [Decimal.reduce, h]
  · refine .inl fun h0 => h ?_
    obtain ⟨k, hk⟩ := Decimal.exists_expand_reduce h
    rw [← hk, Decimal.expand, h0, Nat.zero_mul]

/-- The numeral of a real is a number of the grammar with a point, which denotes in every format the
number nearest to its shortest decimal. -/
theorem exists_numeral_numeral {f : Format} (r : Binary f) :
    ∃ n : Numeral, n.text = r.numeral ∧ ¬n.IsInteger ∧
      ∀ g, Binary.ofDecimal g n.toDecimal = .ofDecimal g r.shortest := by
  obtain ⟨n, hn, hi, k, hk⟩ := exists_numeral_positional (coefficient_reduce_ne_zero_or _)
  exact ⟨n, hn, hi, fun g => by rw [hk, Binary.ofDecimal_expand]; rfl⟩

theorem exists_token_realText {f : Format} {r : Binary f}
    (h : r.isFinite = true → (Binary.ofDecimal .double r.shortest).isFinite = true) :
    ∃ k : Token, ValueText (Scalar.realText r) (.leaf k) ∧ k.Fits ∧
      k.scalar = Scalar.rereadReal r := by
  rcases hf : r.isFinite with _ | _
  · refine ⟨.null, ?_, trivial, ?_⟩
    · rw [Scalar.realText, hf]
      exact .nullWord
    · rw [Scalar.rereadReal, hf]
      rfl
  · obtain ⟨n, hn, hi, hvalue⟩ := exists_numeral_numeral r
    refine ⟨.number n, ?_, ?_, ?_⟩
    · rw [Scalar.realText, hf, if_pos rfl, ← hn]
      exact .number n
    · rw [Token.Fits, Numeral.Fits, if_neg hi, hvalue]
      exact h hf
    · rw [Token.scalar, Numeral.scalar, if_neg hi, Scalar.rereadReal, hf, if_pos rfl, ← hn,
        n.binaryRead?_text]
      rfl

/-- The text of a scalar is a token of the grammar, which denotes what the scalar is reread as. -/
theorem exists_token_leafText (s : Scalar) :
    ∃ k : Token, ValueText (leafText s) (.leaf k) ∧ k.Fits ∧ k.scalar = s.reread := by
  cases s with
  | string s =>
    refine ⟨.string s, ?_, trivial, rfl⟩
    have := ValueText.string (chars_escape s.toList)
    rwa [String.ofList_toList] at this
  | integer n =>
    obtain ⟨k, hk, hi, hn⟩ := exists_numeral_intText n.toInt
    have hlow : Int64.minValue.toInt ≤ Int32.minValue.toInt := by decide
    have hhigh : Int32.maxValue.toInt ≤ Int64.maxValue.toInt := by decide
    have hw : ValueText (Scalar.intText n.toInt) (.leaf (.number k)) := hk ▸ .number k
    refine ⟨.number k, hw, ?_, ?_⟩
    · rw [Token.Fits, Numeral.Fits, if_pos hi, hn]
      exact ⟨Int.le_trans hlow n.minValue_le_toInt, Int.le_trans n.toInt_le hhigh⟩
    · rw [Token.scalar, Numeral.scalar, if_pos hi, hn, if_pos ⟨n.minValue_le_toInt, n.toInt_le⟩,
        Int32.ofInt_toInt]
      rfl
  | long n =>
    obtain ⟨k, hk, hi, hn⟩ := exists_numeral_intText n.toInt
    have hw : ValueText (Scalar.intText n.toInt) (.leaf (.number k)) := hk ▸ .number k
    refine ⟨.number k, hw, ?_, ?_⟩
    · rw [Token.Fits, Numeral.Fits, if_pos hi, hn]
      exact ⟨n.minValue_le_toInt, n.toInt_le⟩
    · rw [Token.scalar, Numeral.scalar, if_pos hi, hn, Int64.ofInt_toInt]
      rfl
  | float r =>
    refine exists_token_realText fun hf => Binary.isFinite_ofDecimal_double ?_
    rw [Binary.ofDecimal_shortest hf]
    exact hf
  | double r =>
    refine exists_token_realText ?_
    intro hf
    rw [Binary.ofDecimal_shortest hf]
    exact hf
  | boolean b =>
    cases b with
    | true => exact ⟨.boolean true, .trueWord, trivial, rfl⟩
    | false => exact ⟨.boolean false, .falseWord, trivial, rfl⟩
  | null => exact ⟨.null, .nullWord, trivial, rfl⟩

/-! ## Trees -/

section compact

variable {f : Scalar → Token}

mutual

/-- The text of a tree is one of the grammar, if the texts of its leaves are. -/
theorem valueText_compact (hf : ∀ s, ValueText (leafText s) (.leaf (f s))) :
    ∀ t : Tree Scalar, ValueText (compact t) (t.map f)
  | .leaf s => hf s
  | .array [] => .emptyArray spaces_nil
  | .array (t :: ts) => .array (elementsText_compact hf (t :: ts) (List.cons_ne_nil t ts))
  | .object [] => .emptyObject spaces_nil
  | .object (m :: ms) => .object (membersText_compact hf (m :: ms) (List.cons_ne_nil m ms))

theorem elementsText_compact (hf : ∀ s, ValueText (leafText s) (.leaf (f s))) :
    ∀ ts : List (Tree Scalar), ts ≠ [] → ElementsText (compactItems ts) (Tree.mapItems f ts)
  | [t], _ => by
    have := ElementsText.last spaces_nil (valueText_compact hf t) spaces_nil
    simpa [compactItems, Tree.mapItems] using this
  | t :: u :: us, _ => by
    have := ElementsText.cons spaces_nil (valueText_compact hf t) spaces_nil
      (elementsText_compact hf (u :: us) (List.cons_ne_nil u us))
    simpa [compactItems, Tree.mapItems] using this

theorem membersText_compact (hf : ∀ s, ValueText (leafText s) (.leaf (f s))) :
    ∀ ms : List (String × Tree Scalar), ms ≠ [] →
      MembersText (compactMembers ms) (Tree.mapMembers f ms)
  | [(name, t)], _ => by
    have := MembersText.last spaces_nil (chars_escape name.toList) spaces_nil spaces_nil
      (valueText_compact hf t) spaces_nil
    simpa [compactMembers, quoted, Tree.mapMembers] using this
  | (name, t) :: m :: ms, _ => by
    have := MembersText.cons spaces_nil (chars_escape name.toList) spaces_nil spaces_nil
      (valueText_compact hf t) spaces_nil
      (membersText_compact hf (m :: ms) (List.cons_ne_nil m ms))
    simpa [compactMembers, quoted, Tree.mapMembers] using this

end

end compact

end Json

/-! ## Rereading what was read -/

namespace Binary

variable {f : Format}

theorem negative_shortest {r : Binary f} (h : r.isFinite = true) :
    r.shortest.negative = r.negative := by
  have := congrArg negative (ofDecimal_shortest h)
  rwa [negative_ofDecimal] at this

theorem negative_cast {g : Format} {r : Binary f} (h : r.isFinite = true) :
    (r.cast g).negative = r.negative := by
  rw [cast, isNaN_of_isFinite h, h]
  rfl

/-- Equal numbers of one sign are the same number; only the zeros are equal otherwise. -/
theorem eq_of_same {a b : Binary f} (h : a.same b = true) (hn : a.negative = b.negative) :
    a = b := by
  have hkey : a.key = b.key := by
    rw [same, compare?] at h
    split at h
    · simp at h
    · exact compare_eq_iff_eq.mp (Option.some.inj (of_decide_eq_true h))
  rcases a with ⟨na, ma, ha⟩
  rcases b with ⟨nb, mb, hb⟩
  obtain rfl : na = nb := hn
  have hmag : ma = mb := by
    cases na
    · exact Int.ofNat.inj hkey
    · exact Int.ofNat.inj (Int.neg_inj.mp hkey)
  subst hmag
  rfl

end Binary

namespace Scalar

theorem rereadReal_eq {f : Format} {r : Binary f} (h : r.isFinite = true) :
    rereadReal r = ofReal (.ofDecimal .double r.shortest) := by
  obtain ⟨n, hn, -, hvalue⟩ := Json.exists_numeral_numeral r
  rw [rereadReal, if_pos h, ← hn, n.binaryRead?_text, hvalue]
  rfl

/-- A real that is tagged as a float is the double that the float's numeral denotes. -/
theorem ofReal_cases {x : Double} (h : x.isFinite = true) :
    (∃ r : Single, ofReal x = .float r ∧ r.isFinite = true ∧
      Binary.ofDecimal .double r.shortest = x) ∨ ofReal x = .double x := by
  by_cases hnarrow : (x.cast .single).isFinite ∧
      (Binary.ofDecimal .double (x.cast .single).shortest).same x
  · refine .inl ⟨x.cast .single, if_pos hnarrow, hnarrow.1, Binary.eq_of_same hnarrow.2 ?_⟩
    rw [Binary.negative_ofDecimal, Binary.negative_shortest hnarrow.1, Binary.negative_cast h]
  · exact .inr (if_neg hnarrow)

/-- A real that was tagged is read again with the same tag and the same value. -/
theorem reread_ofReal {x : Double} (h : x.isFinite = true) : (ofReal x).reread = ofReal x := by
  obtain ⟨r, htag, hr, hvalue⟩ | htag := ofReal_cases h
  · calc (ofReal x).reread = rereadReal r := by rw [htag]; rfl
      _ = ofReal x := by rw [rereadReal_eq hr, hvalue]
  · calc (ofReal x).reread = rereadReal x := by rw [htag]; rfl
      _ = ofReal x := by rw [rereadReal_eq h, Binary.ofDecimal_shortest h]

/-- A scalar that a token denotes is read again as itself. -/
theorem reread_scalar {k : Json.Token} (h : k.Fits) : k.scalar.reread = k.scalar := by
  cases k with
  | number n =>
    by_cases hi : n.IsInteger
    · rw [Json.Token.Fits, Json.Numeral.Fits, if_pos hi] at h
      rw [Json.Token.scalar, Json.Numeral.scalar, if_pos hi]
      split
      · rfl
      · next hn => rw [reread, Int64.toInt_ofInt_of_le h.1 (Int.lt_add_one_of_le h.2), if_neg hn]
    · rw [Json.Token.Fits, Json.Numeral.Fits, if_neg hi] at h
      rw [Json.Token.scalar, Json.Numeral.scalar, if_neg hi]
      exact reread_ofReal h
  | _ => rfl

end Scalar

/-! ## Documents -/

namespace Document

open Json

/-- The tree of a document is read as it is, whatever becomes of its leaves. -/
theorem Rooted.toTree_ofReading_map {d : Document} (h : d.Rooted) (f : Scalar → Scalar) :
    (ofReading (d.toTree.map f)).toTree = d.toTree.map f := by
  have hnodup : d.toTree.NamesNodup := h.forest.namesNodup_tree h.root_lt
  rw [toTree_ofReading, Tree.distinct_eq_self (Tree.namesNodup_map f hnodup)]

/-- A text of the grammar for a tree whose leaves are written as tokens is read as the tree with its
leaves reread. -/
theorem parse_ofList_eq_ok {f : Scalar → Token} (hfits : ∀ s, (f s).Fits)
    (hscalar : ∀ s, (f s).scalar = s.reread) {t : Tree Scalar} (ht : t.depth ≤ 512)
    {w : List Char} (hw : ValueText w (t.map f)) :
    parse (.ofList w) = .ok (ofReading (t.map Scalar.reread)) := by
  have hderives : Derives (String.ofList w).toList (t.map f) :=
    ⟨[], w, [], by simp, spaces_nil, hw, spaces_nil⟩
  have hreread : (t.map f).map Token.scalar = t.map Scalar.reread := by
    rw [Tree.map_map]
    exact congrArg t.map (funext hscalar)
  have hread := read_dialect_eq_ok_iff.mpr
    ⟨_, hderives, (Tree.depth_map f t).trans_le ht, Tree.all_map hfits t, hreread.symm⟩
  exact parse_eq_ok_iff.mpr ⟨_, hread, rfl⟩

/-- The text of a tree that nests few enough containers is read as the tree with its leaves
reread. -/
theorem parse_toJson_of_depth_le {t : Tree Scalar} (ht : t.depth ≤ 512) :
    parse t.toJson = .ok (ofReading (t.map Scalar.reread)) := by
  choose f hf hfits hscalar using exists_token_leafText
  exact parse_ofList_eq_ok hfits hscalar ht (valueText_compact hf t)

theorem exists_parse_toJson {d : Document} (h : d.Rooted) (hd : d.toTree.depth ≤ 512) :
    ∃ d', parse d.toJson = .ok d' ∧ d'.toTree = d.toTree.map Scalar.reread :=
  ⟨_, parse_toJson_of_depth_le hd, h.toTree_ofReading_map Scalar.reread⟩

/-- What was read nests at most 512 containers, and its leaves are reread as themselves. -/
theorem toTree_of_parse {text : String} {d : Document} (h : parse text = .ok d) :
    d.toTree.depth ≤ 512 ∧ d.toTree.All fun s => s.reread = s := by
  obtain ⟨u, hu, rfl⟩ := parse_eq_ok_iff.mp h
  obtain ⟨k, -, hdepth, hfits, rfl⟩ := read_dialect_eq_ok_iff.mp hu
  rw [toTree_ofReading]
  constructor
  · calc (k.map Token.scalar).distinct.depth ≤ (k.map Token.scalar).depth :=
        Tree.depth_distinct_le _
      _ = k.depth := Tree.depth_map _ _
      _ ≤ 512 := hdepth
  · have hleaves : (k.map Token.scalar).All fun s => s.reread = s :=
      Tree.All.map (p := Token.Fits) (fun _ => Scalar.reread_scalar) hfits
    exact hleaves.distinct

/-- Writing a document and reading the text again changes nothing but the kinds of its scalars:
the text is read, as the same tree with each scalar replaced by what its own text is read as. A
document that was read from a text comes back as it was, and is written as before. -/
theorem parse_toJson :
    (∀ d : Document, Reachable d → d.toTree.depth ≤ 512 →
      ∃ d', parse d.toJson = .ok d' ∧ d'.toTree = d.toTree.map Scalar.reread) ∧
    (∀ (text : String) (d : Document), parse text = .ok d →
      ∃ d', parse d.toJson = .ok d' ∧ d'.toTree = d.toTree ∧ d'.toJson = d.toJson) := by
  constructor
  · intro d hd hdepth
    exact exists_parse_toJson hd.rooted hdepth
  · intro text d hd
    obtain ⟨hdepth, hleaves⟩ := toTree_of_parse hd
    obtain ⟨d', hd', ht⟩ := exists_parse_toJson (rooted_of_parse hd) hdepth
    have hsame : d'.toTree = d.toTree := ht.trans (Tree.map_eq_self hleaves)
    exact ⟨d', hd', hsame, congrArg Tree.toJson hsame⟩

theorem parse_toJson_array :
    (∃ d', parse (new (.value (.long 7))).toJson = .ok d' ∧ d'.toTree = .leaf (.integer 7)) ∧
    (∃ d', parse (ofReading (.array [.leaf .null])).toJson = .ok d' ∧
      d'.toTree = .array [.leaf .null] ∧ d'.toJson = "[null]") := by
  have hw : ValueText "[null]".toList (.array [.leaf .null]) :=
    .array (.last spaces_nil .nullWord spaces_nil)
  have hread : Json.read dialect "[null]".toList = .ok (.array [.leaf .null]) :=
    read_dialect_eq_ok_iff.mpr ⟨_, ⟨[], _, [], rfl, spaces_nil, hw, spaces_nil⟩, by decide,
      ⟨trivial, trivial⟩, rfl⟩
  exact ⟨parse_toJson.1 _ (.value (.long 7)) (by decide),
    parse_toJson.2 "[null]" _ (parse_eq_ok_iff.mpr ⟨_, hread, rfl⟩)⟩

end Document

end Reshape
