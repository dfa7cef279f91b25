import Reshape.Proofs.Document.RoundTrip

/-!
# Documents and plain values

A plain value has one kind of number where a document has four, and either side can be converted to
the other. What a document makes of a plain leaf is a leaf from which the plain one can be told, so
that a value comes back from a document, and a document that was read or came from a value comes
back from a value.

## Main definitions

* `Json.Atom.Fits`: the leaves that a plain value can hold.
* `Json.Atom.Signed`: those among them that are no integers beyond the signed range.

## Main statements

* `Json.Atom.ofScalar_toScalar`, `Json.Atom.toScalar_ofScalar`: the two round trips of leaves.
* `Document.toValue_ofValue`, `Document.toTree_ofValue_toValue`: the two round trips of trees.
* `Document.value_roundTrip`.
-/

namespace Reshape

namespace Json.Atom

/-- Plain integers have 64 bits, with or without a sign, and plain reals are finite. -/
def Fits : Atom → Prop
  | int n => Int64.minValue.toInt ≤ n ∧ n ≤ maxUnsigned
  | real r => r.isFinite = true
  | _ => True

/-- Of the plain integers, those that fit 64 bits with a sign. -/
def Signed : Atom → Prop
  | int n => Int64.minValue.toInt ≤ n ∧ n ≤ Int64.maxValue.toInt
  | a => a.Fits

theorem Signed.fits {a : Atom} (h : a.Signed) : a.Fits := by
  cases a with
  | int n => exact ⟨h.1, Int.le_trans h.2 (by decide)⟩
  | _ => exact h

/-! ## Leaves -/

/-- A real comes back from the scalar that it is tagged as. -/
theorem ofScalar_ofReal {x : Double} (h : x.isFinite = true) :
    ofScalar (Scalar.ofReal x) = real x := by
  obtain ⟨r, htag, hr, hvalue⟩ | htag := Scalar.ofReal_cases h
  · simp [htag, ofScalar, ofReal, hr, hvalue, h]
  · simp [htag, ofScalar, ofReal, h]

/-- A plain leaf comes back from its scalar. -/
theorem ofScalar_toScalar {a : Atom} (h : a.Signed) : ofScalar a.toScalar = a := by
  cases a with
  | int n =>
    obtain ⟨s, hs⟩ : ∃ s, Scalar.ofInt? n = some s := ⟨_, Document.ofInt?_eq_some_iff.mpr ⟨h, rfl⟩⟩
    have hvalue := (Document.ofInt?_eq_some_iff.mp hs).2
    simp only [toScalar, hs, Option.getD_some, hvalue]
    split
    · next hn => simp [ofScalar, Int32.toInt_ofInt_of_le hn.1 (Int.lt_add_one_of_le hn.2)]
    · simp [ofScalar, Int64.toInt_ofInt_of_le h.1 (Int.lt_add_one_of_le h.2)]
  | real r => exact ofScalar_ofReal h
  | _ => rfl

/-- The double nearest to an integer of 64 bits is finite. -/
theorem isFinite_ofInt {n : Int} (h : (int n).Fits) : (Binary.ofInt .double n).isFinite = true := by
  have hmin : Int64.minValue.toInt = -9223372036854775808 := rfl
  have hmax : maxUnsigned = 18446744073709551615 := rfl
  rw [Fits, hmin, hmax] at h
  have hlt : n.natAbs < 1 * 2 ^ 64 := by omega
  have := Format.double.roundMagnitude_lt_infinity Nat.one_pos hlt (by decide +kernel)
  rw [Binary.ofInt, Binary.round]
  exact decide_eq_true this

/-- The scalar of a plain leaf is told from what it converts to. -/
theorem toScalar_ofScalar {a : Atom} (h : a.Fits) :
    (ofScalar a.toScalar).toScalar = a.toScalar := by
  by_cases hs : a.Signed
  · rw [ofScalar_toScalar hs]
  · cases a with
    | int n =>
      -- Beyond the signed range the integer is a real already.
      have hnone : Scalar.ofInt? n = none :=
        Option.eq_none_iff_forall_ne_some.mpr fun s hn => hs (Document.ofInt?_eq_some_iff.mp hn).1
      have hscalar : (int n).toScalar = .ofReal (.ofInt .double n) := by
        rw [toScalar, hnone, Option.getD_none]
      rw [hscalar, ofScalar_ofReal (isFinite_ofInt h), toScalar]
    | _ => exact absurd h hs

/-- A token of a text denotes the scalar of a plain leaf. -/
theorem exists_toScalar_eq {k : Token} (h : k.Fits) :
    ∃ a : Atom, a.Fits ∧ a.toScalar = k.scalar := by
  cases k with
  | string s => exact ⟨.string s, trivial, rfl⟩
  | boolean b => exact ⟨.boolean b, trivial, rfl⟩
  | null => exact ⟨.null, trivial, rfl⟩
  | number n =>
    by_cases hi : n.IsInteger
    · rw [Token.Fits, Numeral.Fits, if_pos hi] at h
      have hs := Document.ofInt?_eq_some_iff.mpr ⟨h, rfl⟩
      refine ⟨.int n.toInt, Signed.fits h, ?_⟩
      simp only [toScalar, hs, Option.getD_some, Token.scalar, Numeral.scalar, if_pos hi]
    · rw [Token.Fits, Numeral.Fits, if_neg hi] at h
      exact ⟨.real _, h, by simp only [toScalar, Token.scalar, Numeral.scalar, if_neg hi]⟩

end Json.Atom

namespace Document

open Json

/-! ## Trees -/

theorem toTree_ofValue {v : Value} (h : v.NamesNodup) :
    (ofValue v).toTree = v.map Atom.toScalar :=
  toTree_ofTree (Tree.namesNodup_map _ h)

/-- A plain value comes back from its document. -/
theorem toValue_ofValue {v : Value} (hn : v.NamesNodup) (h : v.All Atom.Signed) :
    (ofValue v).toValue = v := by
  rw [toValue, toTree_ofValue hn, Tree.map_map]
  exact Tree.map_eq_self (h.mono fun a ha => Atom.ofScalar_toScalar ha)

/-- A document whose scalars are told from what they convert to comes back from its value. -/
theorem toTree_ofValue_toValue {d : Document} (hn : d.toTree.NamesNodup)
    (h : d.toTree.All fun s => (Atom.ofScalar s).toScalar = s) :
    (ofValue d.toValue).toTree = d.toTree := by
  have hvalue : d.toValue.NamesNodup := Tree.namesNodup_map _ hn
  rw [toTree_ofValue hvalue, toValue, Tree.map_map]
  exact Tree.map_eq_self h

/-- The scalars of a text are those of plain leaves. -/
theorem all_toScalar_ofScalar_of_parse {text : String} {d : Document} (h : parse text = .ok d) :
    d.toTree.All fun s => (Atom.ofScalar s).toScalar = s := by
  obtain ⟨u, hu, rfl⟩ := parse_eq_ok_iff.mp h
  obtain ⟨k, -, -, hfits, rfl⟩ := read_dialect_eq_ok_iff.mp hu
  rw [toTree_ofReading]
  refine Tree.All.distinct (hfits.map fun token htoken => ?_)
  obtain ⟨a, ha, hscalar⟩ := Atom.exists_toScalar_eq htoken
  exact hscalar ▸ Atom.toScalar_ofScalar ha

/-- Nothing is lost between plain values and documents. A value comes back from its document if its
integers fit the signed range, and a document that was read from a text, or that came from any plain
value, comes back from its value: the same tree, with the same kinds and values of scalars. -/
theorem value_roundTrip :
    (∀ v : Value, v.NamesNodup → v.All Atom.Signed → (ofValue v).toValue = v) ∧
    (∀ (text : String) (d : Document), parse text = .ok d →
      (ofValue d.toValue).toTree = d.toTree) ∧
    (∀ v : Value, v.NamesNodup → v.All Atom.Fits →
      (ofValue (ofValue v).toValue).toTree = (ofValue v).toTree) := by
  refine ⟨fun v => toValue_ofValue, fun text d hd => ?_, fun v hn hv => ?_⟩
  · have hrooted := rooted_of_parse hd
    exact toTree_ofValue_toValue (hrooted.forest.namesNodup_tree hrooted.root_lt)
      (all_toScalar_ofScalar_of_parse hd)
  · have hrooted := rooted_ofTree (Tree.namesNodup_map Atom.toScalar hn)
    refine toTree_ofValue_toValue (hrooted.forest.namesNodup_tree hrooted.root_lt) ?_
    rw [toTree_ofValue hn]
    exact Tree.All.map (p := Atom.Fits) (fun a => Atom.toScalar_ofScalar) hv

/-- Minus zero and an integer that needs more than 32 bits. -/
def minusZero : Value :=
  .object [("z", .leaf (.real (.zero .double true))), ("n", .leaf (.int 3000000000))]

/-- An integer beyond the signed range. -/
def unsigned : Value := .leaf (.int maxUnsigned)

theorem value_roundTrip_minusZero :
    (minusZero.NamesNodup ∧ minusZero.All Atom.Signed ∧ (ofValue minusZero).toValue = minusZero) ∧
    (∃ d, parse "[-0.0]" = .ok d ∧ (ofValue d.toValue).toTree = d.toTree) ∧
    unsigned.NamesNodup ∧ unsigned.All Atom.Fits ∧
      (ofValue (ofValue unsigned).toValue).toTree = (ofValue unsigned).toTree := by
  have hnames : minusZero.NamesNodup := ⟨by decide, trivial, trivial, trivial⟩
  have hsigned : minusZero.All Atom.Signed :=
    ⟨Binary.isFinite_zero true, ⟨by decide, by decide⟩, trivial⟩
  have hfits : unsigned.All Atom.Fits := ⟨by decide, by decide⟩
  obtain ⟨d, hd⟩ : ∃ d, parse "[-0.0]" = .ok d := by
    let n : Numeral := ⟨true, ['0'], some ['0'], none, .inl rfl, by simp [IsRow]⟩
    have hw : ValueText "[-0.0]".toList (.array [.leaf (.number n)]) :=
      .array (.last spaces_nil (.number n) spaces_nil)
    have hn : n.Fits := (if_neg (by simp [Numeral.IsInteger, n])).mpr (Binary.isFinite_zero true)
    obtain ⟨d, hd, -⟩ := (parse_eq_ok_iff_derives "[-0.0]" _).mpr
      ⟨_, ⟨[], _, [], rfl, spaces_nil, hw, spaces_nil⟩, by decide, ⟨hn, trivial⟩, rfl⟩
    exact ⟨d, hd⟩
  exact ⟨⟨hnames, hsigned, value_roundTrip.1 _ hnames hsigned⟩,
    ⟨d, hd, value_roundTrip.2.1 _ _ hd⟩, trivial, hfits, value_roundTrip.2.2 _ trivial hfits⟩

end Document

end Reshape
