import Mathlib.Data.List.Basic
import Reshape.Path.Compare
import Reshape.Proofs.Document.Same

/-!
# The laws of comparison

A comparison may be read from the other side if less and greater change places. Between scalars of
one kind that have an order, being equal in order is being equal, except between long integers: the
order is that of the nearest doubles, and different long integers may have the same one.

## Main definitions

* `Relation.converse`, `Operator.converse`: what holds with the sides exchanged.
* `Document.Side`: what stands on a side of a comparison, node by node and literal by literal.
* `Scalar.Merged`: long integers that differ and have the same nearest double.

## Main statements

* `Document.compare_converse`: the sides may be exchanged.
* `Scalar.order?_eq_some_eq_iff`: where the order has no difference.
* `Scalar.compare_trichotomy`: exactly one of less, equal and greater holds.
-/

namespace Reshape

/-! ## Exchanging the sides -/

/-- The relation that holds with the sides exchanged. -/
def Relation.converse : Relation → Relation
  | equal => equal
  | notEqual => notEqual
  | less => greater
  | lessOrEqual => greaterOrEqual
  | greater => less
  | greaterOrEqual => lessOrEqual

/-- The operator that holds with the sides exchanged, in the same style. -/
def Operator.converse : Operator → Operator
  | keyword r => keyword r.converse
  | symbol r => symbol r.converse

theorem Binary.compare?_swap {f : Format} (a b : Binary f) :
    (a.compare? b).map Ordering.swap = b.compare? a := by
  cases ha : a.isNaN <;> cases hb : b.isNaN <;>
    simp [compare?, ha, hb, Std.OrientedOrd.eq_swap (a := b.key)]

namespace Scalar

theorem order?_string (s t : String) : (string s).order? (string t) = some (compare s t) := rfl

/-- Unless both are texts, scalars are ordered by the doubles nearest to them. -/
theorem order?_eq_bind {a b : Scalar} (h : a.string? = none ∨ b.string? = none) :
    a.order? b = a.number?.bind fun x => b.number?.bind fun y => x.compare? y := by
  unfold order?
  split
  · simp [string?] at h
  · cases a.number? <;> cases b.number? <;> rfl

theorem order?_swap (a b : Scalar) : (a.order? b).map Ordering.swap = b.order? a := by
  by_cases h : a.string? = none ∨ b.string? = none
  · rw [order?_eq_bind h, order?_eq_bind h.symm]
    cases a.number? <;> cases b.number? <;> simp [Binary.compare?_swap]
  · cases a <;> cases b <;> simp [string?] at h
    next s t => rw [order?_string, order?_string, Option.map_some, ← Std.OrientedOrd.eq_swap]

end Scalar

theorem Relation.holds_converse (r : Relation) (a b : Scalar) :
    r.converse.holds b a = r.holds a b := by
  have horder : ∀ o, (b.order? a = some o) ↔ (a.order? b = some o.swap) := fun o => by
    rw [← Scalar.order?_swap a b]
    cases a.order? b with
    | none => simp
    | some o' => cases o <;> cases o' <;> simp
  cases r <;> simp [converse, holds, horder, Scalar.same_comm b a]

theorem anyPair_comm {α : Type} {test test' : α → α → Bool} {xs ys : List α}
    (h : ∀ x ∈ xs, ∀ y ∈ ys, test x y = test' y x) : anyPair test xs ys = anyPair test' ys xs := by
  rw [Bool.eq_iff_iff]
  simp only [anyPair, List.any_eq_true]
  constructor
  · rintro ⟨x, hx, y, hy, hxy⟩
    exact ⟨y, hy, x, hx, h x hx y hy ▸ hxy⟩
  · rintro ⟨y, hy, x, hx, hyx⟩
    exact ⟨x, hx, y, hy, h x hx y hy ▸ hyx⟩

/-- A word holds of nothing but two scalars. -/
theorem Operator.compare_keyword_of_not_single {r : Relation} {left right : List (Tree Scalar)}
    (h : ¬∃ a b, left = [.leaf a] ∧ right = [.leaf b]) :
    (keyword r).compare left right = false := by
  unfold compare
  split
  · next a b heq => exact absurd ⟨_, _, rfl, rfl⟩ h
  all_goals grind

/-- A word asks whether both sides are single scalars, and a sign asks all pairs: neither prefers
one of the sides. -/
theorem Operator.converse_compare (op : Operator) {left right : List (Tree Scalar)}
    (hl : ∀ t ∈ left, t.NamesNodup) (hr : ∀ t ∈ right, t.NamesNodup) :
    op.converse.compare right left = op.compare left right := by
  have hsame : ∀ t ∈ right, ∀ u ∈ left, t.same u = u.same t := fun t ht u hu =>
    Tree.same_comm (hr t ht) (hl u hu)
  cases op with
  | keyword r =>
    by_cases h : ∃ a b, left = [.leaf a] ∧ right = [.leaf b]
    · obtain ⟨a, b, rfl, rfl⟩ := h
      exact r.holds_converse a b
    · rw [compare_keyword_of_not_single h, converse, compare_keyword_of_not_single]
      exact fun ⟨b, a, hb, ha⟩ => h ⟨a, b, ha, hb⟩
  | symbol r =>
    cases r
    case equal => exact anyPair_comm hsame
    case notEqual => exact anyPair_comm fun t ht u hu => by rw [hsame t ht u hu]
    all_goals rfl

namespace Document

/-- What stands on a side of a comparison: a node of some document, or a literal. -/
inductive Side where
  | node (n : Node)
  | literal (s : Scalar)

namespace Side

/-- What is compared: the tree below a node, or a literal as a leaf. -/
def tree : Side → Tree Scalar
  | node n => n.tree
  | literal s => .leaf s

/-- Nodes are those of well-formed documents. -/
def Valid : Side → Prop
  | node n => n.Valid
  | literal _ => True

theorem Valid.namesNodup {s : Side} (h : s.Valid) : s.tree.NamesNodup := by
  cases s with
  | node n => exact Node.Valid.namesNodup h
  | literal s => trivial

end Side

/-- A comparison holds just if the one with the sides exchanged holds, with less and greater
exchanged as well. -/
theorem compare_converse (op : Operator) {left right : List Side} (hl : ∀ s ∈ left, s.Valid)
    (hr : ∀ s ∈ right, s.Valid) :
    op.compare (left.map Side.tree) (right.map Side.tree) =
      op.converse.compare (right.map Side.tree) (left.map Side.tree) := by
  have hnodup : ∀ sides : List Side, (∀ s ∈ sides, s.Valid) →
      ∀ t ∈ sides.map Side.tree, t.NamesNodup := by
    intro sides h t ht
    obtain ⟨s, hs, rfl⟩ := List.mem_map.mp ht
    exact (h s hs).namesNodup
  exact (op.converse_compare (hnodup left hl) (hnodup right hr)).symm

/-- A literal and an object against the object with its members exchanged: some pair is equal from
either side. A literal is less than an element, which is greater than it. -/
theorem compare_converse_mixed :
    let negativeZero : Tree Scalar := .leaf (.float (.zero .single true))
    let zero : Tree Scalar := .leaf (.float (.zero .single false))
    let two : Tree Scalar := .leaf (.integer 2)
    let outer : Document := ofReading (.array [.object [("x", two), ("y", zero)]])
    let single : Document := ofReading (.object [("y", negativeZero), ("x", two)])
    let left : List Side := [.literal .null, .node ⟨outer, 1⟩]
    let right : List Side := [.node ⟨single, 0⟩]
    let one : List Side := [.literal (.integer 1)]
    let more : List Side := [.node ⟨single, 2⟩]
    ((∀ s ∈ left, s.Valid) ∧ (∀ s ∈ right, s.Valid) ∧ (∀ s ∈ one, s.Valid) ∧
      ∀ s ∈ more, s.Valid) ∧
      (Operator.symbol .equal).compare (right.map Side.tree) (left.map Side.tree) = true ∧
      (Operator.keyword .greater).compare (more.map Side.tree) (one.map Side.tree) = true := by
  intro negativeZero zero two outer single left right one more
  have houter : outer.WellFormed := (rooted_ofReading _).wellFormed
  have hsingle : single.WellFormed := (rooted_ofReading _).wellFormed
  have hleft : ∀ s ∈ left, s.Valid := by
    simp only [left, List.forall_mem_cons]
    exact ⟨trivial, ⟨houter, by decide +kernel⟩, nofun⟩
  have hright : ∀ s ∈ right, s.Valid :=
    List.forall_mem_singleton.mpr ⟨hsingle, by decide +kernel⟩
  have hone : ∀ s ∈ one, s.Valid := List.forall_mem_singleton.mpr trivial
  have hmore : ∀ s ∈ more, s.Valid := List.forall_mem_singleton.mpr ⟨hsingle, by decide +kernel⟩
  have hsign := compare_converse (.symbol .equal) hleft hright
  have hword := compare_converse (.keyword .less) hone hmore
  exact ⟨⟨hleft, hright, hone, hmore⟩, hsign.symm.trans (by decide +kernel),
    hword.symm.trans (by decide +kernel)⟩

end Document

/-! ## Order and equality -/

namespace Scalar

/-- The kinds of scalars that have an order: texts and numbers. -/
def Kind.isOrdered : Kind → Bool
  | boolean | null => false
  | _ => true

/-- Integers of 64 bits that differ, but have the same nearest double. -/
def Merged (a b : Scalar) : Prop :=
  ∃ m n : Int64, a = long m ∧ b = long n ∧ m ≠ n ∧
    (Binary.ofInt .double m.toInt).same (.ofInt .double n.toInt) = true

end Scalar

theorem Binary.compare?_eq_some_eq_iff {f : Format} {a b : Binary f} :
    a.compare? b = some .eq ↔ a.same b = true := by
  simp [same]

namespace Scalar

/-- Integers of at most 53 bits have nearest doubles of their own. -/
theorem same_ofInt_iff {m n : Int} (hm : m.natAbs ≤ 2 ^ 53) (hn : n.natAbs ≤ 2 ^ 53) :
    (Binary.ofInt .double m).same (.ofInt .double n) = true ↔ m = n := by
  rw [Binary.same_iff (by decide), Binary.value?_ofInt hm, Binary.value?_ofInt hn]
  simp [eq_comm]

/-- Scalars of one ordered kind have no difference in order just if they are equal, or two long
integers that have the same nearest double. -/
theorem order?_eq_some_eq_iff {a b : Scalar} (hkind : a.kind = b.kind)
    (hordered : a.kind.isOrdered = true) :
    a.order? b = some .eq ↔ a.same b = true ∨ a.Merged b := by
  cases a <;> cases b <;> cases hkind
  case string.string s t => simp [order?_string, Merged]
  case integer.integer m n =>
    have hsmall : ∀ n : Int32, n.toInt.natAbs ≤ 2 ^ 53 := fun n => by
      have hlt := n.toInt_lt
      have hle := n.le_toInt
      omega
    simp [order?, number?, Binary.compare?_eq_some_eq_iff, same_ofInt_iff (hsmall m) (hsmall n),
      Merged, Int32.toInt_inj]
  case long.long m n =>
    have hself : (Binary.ofInt .double m.toInt).same (.ofInt .double m.toInt) = true :=
      (Binary.same_self_iff _).mpr (Binary.isNaN_round _ _ _)
    simp [order?, number?, Binary.compare?_eq_some_eq_iff, Merged]
    grind
  case float.float r r' =>
    have hcast : (r.cast .double).same (r'.cast .double) = r.same r' := by
      rw [Bool.eq_iff_iff, Binary.same_iff (by decide), Binary.same_iff (by decide),
        Binary.value?_cast_double, Binary.value?_cast_double]
    simp [order?, number?, Binary.compare?_eq_some_eq_iff, hcast, Merged]
  case double.double r r' =>
    simp [order?, number?, Binary.compare?_eq_some_eq_iff, Merged]
  all_goals cases hordered

/-- Widening makes no NaN. -/
theorem exists_number? {a : Scalar} (hordered : a.kind.isOrdered = true)
    (hstring : a.string? = none) (ha : a.isNaN = false) :
    ∃ x, a.number? = some x ∧ x.isNaN = false := by
  cases a with
  | string s => cases hstring
  | integer n => exact ⟨_, rfl, Binary.isNaN_round _ _ _⟩
  | long n => exact ⟨_, rfl, Binary.isNaN_round _ _ _⟩
  | float r =>
    refine ⟨_, rfl, ?_⟩
    rw [← Bool.not_eq_true, ← Binary.value?_eq_none_iff, Binary.value?_cast_double,
      Binary.value?_eq_none_iff, Bool.not_eq_true]
    exact ha
  | double r => exact ⟨r, rfl, ha⟩
  | boolean | null => cases hordered

theorem exists_order? {a b : Scalar} (hkind : a.kind = b.kind)
    (hordered : a.kind.isOrdered = true) (ha : a.isNaN = false) (hb : b.isNaN = false) :
    ∃ o, a.order? b = some o := by
  have hstring : ∀ c : Scalar, c.string? = none ↔ c.kind ≠ .string := fun c => by
    cases c <;> simp [string?, kind]
  by_cases hs : a.string? = none
  · have hs' : b.string? = none := by rwa [hstring, ← hkind, ← hstring]
    obtain ⟨x, hx, hxn⟩ := exists_number? hordered hs ha
    obtain ⟨y, hy, hyn⟩ := exists_number? (hkind ▸ hordered) hs' hb
    refine ⟨compare x.key y.key, ?_⟩
    simp [order?_eq_bind (.inl hs), hx, hy, Binary.compare?, hxn, hyn]
  · cases a <;> cases b <;> cases hkind <;> simp [string?] at hs
    exact ⟨_, order?_string _ _⟩

/-- Of two long integers that the order does not tell apart, one has more than 53 bits. -/
theorem Merged.two_pow_lt {a b : Scalar} (h : a.Merged b) :
    ∃ n : Int64, (a = long n ∨ b = long n) ∧ 2 ^ 53 < n.toInt.natAbs := by
  obtain ⟨m, n, rfl, rfl, hne, hsame⟩ := h
  rcases Nat.lt_or_ge (2 ^ 53) m.toInt.natAbs with hm | hm
  · exact ⟨m, .inl rfl, hm⟩
  rcases Nat.lt_or_ge (2 ^ 53) n.toInt.natAbs with hn | hn
  · exact ⟨n, .inr rfl, hn⟩
  · exact absurd (Int64.toInt_inj.mp ((same_ofInt_iff hm hn).mp hsame)) hne

theorem Merged.same_eq_false {a b : Scalar} (h : a.Merged b) : a.same b = false := by
  obtain ⟨m, n, rfl, rfl, hne, -⟩ := h
  exact beq_eq_false_iff_ne.mpr hne

/-- Between two scalars of one ordered kind, none of which is a NaN, exactly one of less, equal and
greater holds, and less or equal holds with greater or equal just if they are equal: except for two
long integers that differ and have the same nearest double. They are neither less nor equal nor
greater, and both less or equal and greater or equal; one of them has more than 53 bits. -/
theorem compare_trichotomy {a b : Scalar} (hkind : a.kind = b.kind)
    (hordered : a.kind.isOrdered = true) (ha : a.isNaN = false) (hb : b.isNaN = false) :
    let holds (r : Relation) : Prop := (Operator.keyword r).compare [.leaf a] [.leaf b] = true
    (¬a.Merged b →
      (∃! r, r ∈ [Relation.less, .equal, .greater] ∧ holds r) ∧
      (holds .lessOrEqual ∧ holds .greaterOrEqual ↔ holds .equal)) ∧
    (a.Merged b →
      (∀ r, holds r ↔ r ∈ [Relation.notEqual, .lessOrEqual, .greaterOrEqual]) ∧
      ∃ n : Int64, (a = long n ∨ b = long n) ∧ 2 ^ 53 < n.toInt.natAbs) := by
  intro holds
  have hholds : ∀ r, holds r ↔ r.holds a b = true := fun r => Iff.rfl
  obtain ⟨o, ho⟩ := exists_order? hkind hordered ha hb
  have heq : o = .eq ↔ a.same b = true ∨ a.Merged b := by
    rw [← order?_eq_some_eq_iff hkind hordered, ho, Option.some.injEq]
  constructor
  · intro hmerged
    have hsame : a.same b = (o == .eq) := by
      rw [Bool.eq_iff_iff, beq_iff_eq, heq, or_iff_left hmerged]
    simp only [hholds, Relation.holds, ho, hsame]
    cases o
    · exact ⟨⟨.less, by simp, by simp +contextual⟩, by simp⟩
    · exact ⟨⟨.equal, by simp, by simp +contextual⟩, by simp⟩
    · exact ⟨⟨.greater, by simp, by simp +contextual⟩, by simp⟩
  · intro hmerged
    obtain rfl := heq.mpr (.inr hmerged)
    refine ⟨fun r => ?_, hmerged.two_pow_lt⟩
    rw [hholds]
    cases r <;> simp [Relation.holds, ho, hmerged.same_eq_false]

/-- The zeros, and the two integers around which the first double is missing. -/
theorem compare_trichotomy_edges :
    let zero (negative : Bool) : Scalar := .float (.zero .single negative)
    let bound : Scalar := long 9007199254740992
    let odd : Scalar := long 9007199254740993
    (∃! r, r ∈ [Relation.less, .equal, .greater] ∧
      (Operator.keyword r).compare [.leaf (zero true)] [.leaf (zero false)] = true) ∧
    (Operator.keyword .lessOrEqual).compare [.leaf odd] [.leaf bound] = true := by
  intro zero bound odd
  have hzero : ¬(zero true).Merged (zero false) := fun ⟨_, _, h, _⟩ => Scalar.noConfusion h
  have hodd : odd.Merged bound := ⟨_, _, rfl, rfl, by decide, by decide +kernel⟩
  have hzeros := compare_trichotomy (a := zero true) (b := zero false) rfl rfl rfl rfl
  have hbounds := compare_trichotomy (a := odd) (b := bound) rfl rfl rfl rfl
  exact ⟨(hzeros.1 hzero).1, ((hbounds.2 hodd).1 .lessOrEqual).mpr (by simp)⟩

/-- Long integers of one kind, of which none of less, equal and greater holds, although less or
equal holds with greater or equal: the order is that of doubles. -/
theorem not_trichotomy_of_longs :
    let a : Scalar := long 9007199254740992
    let b : Scalar := long 9007199254740993
    let holds (r : Relation) : Bool := (Operator.keyword r).compare [.leaf a] [.leaf b]
    a.kind = b.kind ∧ a.kind.isOrdered = true ∧ a.isNaN = false ∧ b.isNaN = false ∧
      holds .less = false ∧ holds .equal = false ∧ holds .greater = false ∧
      holds .lessOrEqual = true ∧ holds .greaterOrEqual = true := by
  decide +kernel

end Scalar

end Reshape
