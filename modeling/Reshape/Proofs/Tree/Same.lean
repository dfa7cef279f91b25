import Mathlib.Data.List.Perm.Subperm
import Reshape.Proofs.Binary.Value
import Reshape.Proofs.Tree.Leaves

/-!
# Equal trees

Trees over scalars are equal if they differ in nothing but the order of members. The test compares
how many members two objects have and looks for each member of one among those of the other; as no
name is repeated, this leaves none of the others out, so that it does not matter which object is
asked. A NaN is equal to nothing, and so is a tree that has one.

## Main definitions

* `Scalar.Equal`: scalars of one kind and one value.
* `Tree.AlikeBy`: trees of one shape, apart from the order of members, with related leaves.
* `Tree.Alike`: such trees with equal leaves.

## Main statements

* `Scalar.same_iff`, `Tree.same_iff`: what the tests of equality decide.
* `Tree.AlikeBy.symm`, `Tree.AlikeBy.trans`, `Tree.alikeBy_self_iff`: related trees are related as
  their leaves are.
* `Tree.same_comm`, `Tree.same_self_iff`.
-/

namespace Reshape

/-! ## Scalars -/

namespace Scalar

/-- What a scalar says, apart from its kind. -/
inductive Value where
  | text (s : String)
  | number (x : WithBot (WithTop ℚ))
  | truth (b : Bool)
  | null

/-- The value of a scalar; a NaN has none. -/
def value? : Scalar → Option Value
  | string s => some (.text s)
  | integer n => some (.number ((n.toInt : ℚ) : WithTop ℚ))
  | long n => some (.number ((n.toInt : ℚ) : WithTop ℚ))
  | float r => r.value?.map .number
  | double r => r.value?.map .number
  | boolean b => some (.truth b)
  | null => some .null

/-- Whether a scalar is a NaN of either kind of reals. -/
def isNaN : Scalar → Bool
  | float r => r.isNaN
  | double r => r.isNaN
  | _ => false

/-- The scalars have the same kind and the same value. -/
def Equal (a b : Scalar) : Prop := a.kind = b.kind ∧ ∃ v, a.value? = some v ∧ b.value? = some v

theorem Equal.symm {a b : Scalar} : a.Equal b → b.Equal a
  | ⟨hkind, v, ha, hb⟩ => ⟨hkind.symm, v, hb, ha⟩

theorem Equal.trans {a b c : Scalar} : a.Equal b → b.Equal c → a.Equal c
  | ⟨hkind, v, ha, hb⟩, ⟨hkind', v', hb', hc⟩ =>
    ⟨hkind.trans hkind', v, ha, by rw [hc, ← hb', hb]⟩

theorem equal_self_iff {a : Scalar} : a.Equal a ↔ a.isNaN = false := by
  have hreal : ∀ {f : Format} (r : Binary f), (∃ v, r.value? = some v) ↔ r.isNaN = false := by
    intro f r
    rw [← Option.ne_none_iff_exists', ne_eq, Binary.value?_eq_none_iff, Bool.not_eq_true]
  cases a <;> simp [Equal, value?, isNaN, hreal]

@[simp] theorem same_string (s t : String) : (string s).same (string t) = (s == t) := rfl

@[simp] theorem same_integer (m n : Int32) : (integer m).same (integer n) = (m == n) := rfl

@[simp] theorem same_long (m n : Int64) : (long m).same (long n) = (m == n) := rfl

@[simp] theorem same_float (r r' : Single) : (float r).same (float r') = r.same r' := rfl

@[simp] theorem same_double (r r' : Double) : (double r).same (double r') = r.same r' := rfl

@[simp] theorem same_boolean (b b' : Bool) : (boolean b).same (boolean b') = (b == b') := rfl

@[simp] theorem same_null : null.same null = true := rfl

theorem kind_eq_of_same {a b : Scalar} (h : a.same b = true) : a.kind = b.kind := by
  cases a <;> cases b <;> first | rfl | cases h

/-- The test of equality compares kinds and values. -/
theorem same_iff {a b : Scalar} : a.same b = true ↔ a.Equal b := by
  have hreal : ∀ {f : Format} (r r' : Binary f), 0 < f.infinity →
      (r.same r' = true ↔ ∃ v, r.value?.map Value.number = some v ∧
        r'.value?.map Value.number = some v) := by
    intro f r r' hf
    rw [Binary.same_iff hf]
    cases r.value? <;> cases r'.value? <;> simp
  have hsingle := fun r r' => hreal r r' (show 0 < Format.single.infinity by decide)
  have hdouble := fun r r' => hreal r r' (show 0 < Format.double.infinity by decide)
  by_cases hkind : a.kind = b.kind
  · cases a <;> cases b <;> cases hkind <;> simp [Equal, kind, value?, hsingle, hdouble]
    · exact eq_comm
    · rw [Int32.toInt_inj, eq_comm]
    · rw [Int64.toInt_inj, eq_comm]
    · exact eq_comm
  · exact ⟨fun h => absurd (kind_eq_of_same h) hkind, fun h => absurd h.1 hkind⟩

theorem same_comm (a b : Scalar) : a.same b = b.same a := by
  rw [Bool.eq_iff_iff, same_iff, same_iff]
  exact ⟨Equal.symm, Equal.symm⟩

end Scalar

/-! ## Names -/

namespace Members

variable {β γ : Type} {ms : Members β} {ns : Members γ}

/-- Of equally many names, none repeated, the one list has no others if the other has none. -/
theorem mem_names_iff_of_length_eq (hms : ms.names.Nodup) (hlength : ms.length = ns.length)
    (hsub : ms.names ⊆ ns.names) (name : String) : name ∈ ms.names ↔ name ∈ ns.names := by
  have hperm : ms.names.Perm ns.names :=
    (List.subperm_of_subset hms hsub).perm_of_length_le (by simp [names, hlength])
  exact hperm.mem_iff

theorem length_eq_of_mem_names_iff (hms : ms.names.Nodup) (hns : ns.names.Nodup)
    (h : ∀ name, name ∈ ms.names ↔ name ∈ ns.names) : ms.length = ns.length := by
  simpa [names] using ((List.perm_ext_iff_of_nodup hms hns).mpr h).length_eq

theorem exists_mem_of_mem_names {name : String} (h : name ∈ ms.names) : ∃ b, (name, b) ∈ ms := by
  simpa [names] using h

/-- Where no name is repeated, a name stands for one thing. -/
theorem eq_of_mem_of_mem (hms : ms.names.Nodup) {name : String} {b b' : β} (h : (name, b) ∈ ms)
    (h' : (name, b') ∈ ms) : b = b' :=
  Option.some.inj (((find?_eq_some_iff hms).mpr h).symm.trans ((find?_eq_some_iff hms).mpr h'))

end Members

/-! ## Trees with related leaves -/

namespace Tree

variable {α β γ : Type}

/-- What holds of leaves, and of a container if it holds of what is in it, holds of all trees. -/
@[elab_as_elim]
theorem induction {motive : Tree α → Prop} (leaf : ∀ a, motive (leaf a))
    (array : ∀ items, (∀ t ∈ items, motive t) → motive (array items))
    (object : ∀ ms, (∀ m ∈ ms, motive m.2) → motive (object ms)) (t : Tree α) : motive t :=
  @Tree.rec α motive (fun items => ∀ t ∈ items, motive t) (fun ms => ∀ m ∈ ms, motive m.2)
    (fun m => motive m.2) leaf array object
    (List.forall_mem_nil _) (fun _ _ ht hts => List.forall_mem_cons.mpr ⟨ht, hts⟩)
    (List.forall_mem_nil _) (fun _ _ hm hms => List.forall_mem_cons.mpr ⟨hm, hms⟩)
    (fun _ _ ht => ht) t

/-- The trees have the same shape, apart from the order of members, and their leaves are related. -/
inductive AlikeBy (r : α → β → Prop) : Tree α → Tree β → Prop
  | leaf {a : α} {b : β} : r a b → AlikeBy r (leaf a) (leaf b)
  /-- Arrays agree element by element. -/
  | array {xs : List (Tree α)} {ys : List (Tree β)} : xs.length = ys.length →
      (∀ (i : Nat) x y, xs[i]? = some x → ys[i]? = some y → AlikeBy r x y) →
      AlikeBy r (array xs) (array ys)
  /-- Objects have the same names, and under each name what agrees. -/
  | object {ms : List (String × Tree α)} {ns : List (String × Tree β)} :
      (∀ name, name ∈ Members.names ms ↔ name ∈ Members.names ns) →
      (∀ name t u, (name, t) ∈ ms → (name, u) ∈ ns → AlikeBy r t u) →
      AlikeBy r (object ms) (object ns)

namespace AlikeBy

variable {r : α → β → Prop}

theorem symm {s : β → α → Prop} (hrs : ∀ a b, r a b → s b a) {t : Tree α} {u : Tree β}
    (h : t.AlikeBy r u) : u.AlikeBy s t := by
  induction h with
  | leaf h => exact .leaf (hrs _ _ h)
  | array hlength _ ih => exact .array hlength.symm fun i y x hy hx => ih i x y hx hy
  | object hnames _ ih => exact .object (fun k => (hnames k).symm) fun k u t hu ht => ih k t u ht hu

/-- A name in the middle leads from a member of the one object to one of the other. -/
theorem trans {s : β → γ → Prop} {q : α → γ → Prop} (hq : ∀ a b c, r a b → s b c → q a c)
    {t : Tree α} {u : Tree β} {v : Tree γ} (h : t.AlikeBy r u) (h' : u.AlikeBy s v) :
    t.AlikeBy q v := by
  induction h generalizing v with
  | leaf h =>
    cases h' with
    | leaf h' => exact .leaf (hq _ _ _ h h')
  | @array xs ys hlength _ ih =>
    cases h' with
    | @array _ zs hlength' h' =>
      refine .array (hlength.trans hlength') fun i x z hx hz => ?_
      obtain ⟨hi, -⟩ := List.getElem?_eq_some_iff.mp hz
      have hy : ys[i]? = some ys[i] := List.getElem?_eq_getElem (hlength' ▸ hi)
      exact ih i x ys[i] hx hy (h' i ys[i] z hy hz)
  | @object ms ns hnames _ ih =>
    cases h' with
    | object hnames' h' =>
      refine .object (fun k => (hnames k).trans (hnames' k)) fun k t v ht hv => ?_
      obtain ⟨u, hu⟩ := Members.exists_mem_of_mem_names
        ((hnames k).mp (Members.mem_names_of_mem ht))
      exact ih k t u ht hu (h' k u v hu hv)

end AlikeBy

theorem namesNodupItems_iff {ts : List (Tree α)} :
    NamesNodupItems ts ↔ ∀ t ∈ ts, NamesNodup t := by
  induction ts with
  | nil => simp [NamesNodupItems]
  | cons t rest ih => simp [NamesNodupItems, ih]

theorem allItems_iff {p : α → Prop} {ts : List (Tree α)} :
    AllItems p ts ↔ ∀ t ∈ ts, All p t := by
  induction ts with
  | nil => simp [AllItems]
  | cons t rest ih => simp [AllItems, ih]

/-- A tree without repeated names is related to itself just if its leaves are. -/
theorem alikeBy_self_iff {r : α → α → Prop} {t : Tree α} (ht : t.NamesNodup) :
    t.AlikeBy r t ↔ t.All fun a => r a a := by
  induction t using induction with
  | leaf a => exact ⟨fun | .leaf h => h, fun h => .leaf h⟩
  | array items ih =>
    have hitem := namesNodupItems_iff.mp ht
    rw [All, allItems_iff]
    constructor
    · rintro (_ | ⟨-, h⟩)
      intro t hm
      obtain ⟨i, hi⟩ := List.getElem?_of_mem hm
      exact (ih t hm (hitem t hm)).mp (h i t t hi hi)
    · intro h
      refine .array rfl fun i x y hx hy => ?_
      obtain rfl : x = y := Option.some.inj (hx.symm.trans hy)
      have hm := List.mem_of_getElem? hx
      exact (ih x hm (hitem x hm)).mpr (h x hm)
  | object ms ih =>
    have hmember := namesNodupMembers_iff.mp ht.2
    rw [All, allMembers_iff]
    constructor
    · rintro (_ | _ | ⟨-, h⟩)
      intro t ht
      obtain ⟨m, hm, rfl⟩ := List.mem_map.mp ht
      exact (ih m hm (hmember _ (List.mem_map_of_mem hm))).mp (h m.1 m.2 m.2 hm hm)
    · intro h
      refine .object (fun k => Iff.rfl) fun k t u hm hm' => ?_
      obtain rfl := Members.eq_of_mem_of_mem ht.1 hm hm'
      have hv : t ∈ ms.map Prod.snd := List.mem_map_of_mem hm
      exact (ih _ hm (hmember t hv)).mpr (h t hv)

/-! ## The test of equality -/

/-- The trees are equal, apart from the order of members. -/
abbrev Alike (t u : Tree Scalar) : Prop := t.AlikeBy Scalar.Equal u

theorem sameItems_iff {xs ys : List (Tree Scalar)} : sameItems xs ys = true ↔
    xs.length = ys.length ∧ ∀ (i : Nat) x y, xs[i]? = some x → ys[i]? = some y →
      x.same y = true := by
  induction xs generalizing ys with
  | nil => cases ys <;> simp [sameItems]
  | cons x xs ih =>
    cases ys with
    | nil => simp [sameItems]
    | cons y ys =>
      rw [sameItems, Bool.and_eq_true, ih, List.length_cons, List.length_cons, Nat.succ_inj]
      constructor
      · rintro ⟨hxy, hlength, h⟩
        refine ⟨hlength, fun i => ?_⟩
        cases i with
        | zero => simp [hxy]
        | succ i => simpa using h i
      · rintro ⟨hlength, h⟩
        exact ⟨h 0 x y rfl rfl, hlength, fun i => h (i + 1)⟩

theorem sameMembers_iff {ms : List (String × Tree Scalar)} {ns : Members (Tree Scalar)} :
    sameMembers ms ns = true ↔ ∀ m ∈ ms, ∃ u, ns.find? m.1 = some u ∧ m.2.same u = true := by
  induction ms with
  | nil => simp [sameMembers]
  | cons m ms ih =>
    obtain ⟨k, t⟩ := m
    rw [sameMembers, Bool.and_eq_true, ih, List.forall_mem_cons]
    refine and_congr_left' ?_
    cases ns.find? k <;> simp

/-- Where no name is repeated, the test decides whether two trees are equal. -/
theorem same_iff {t u : Tree Scalar} (ht : t.NamesNodup) (hu : u.NamesNodup) :
    t.same u = true ↔ t.Alike u := by
  induction t using induction generalizing u with
  | leaf a =>
    cases u with
    | leaf b => exact Scalar.same_iff.trans ⟨fun h => .leaf h, fun | .leaf h => h⟩
    | array | object => exact ⟨nofun, nofun⟩
  | array xs ih =>
    cases u with
    | array ys =>
      have hpair : ∀ (i : Nat) x y, xs[i]? = some x → ys[i]? = some y →
          (x.same y = true ↔ x.Alike y) := fun i x y hx hy =>
        ih x (List.mem_of_getElem? hx) (namesNodupItems_iff.mp ht x (List.mem_of_getElem? hx))
          (namesNodupItems_iff.mp hu y (List.mem_of_getElem? hy))
      rw [same, sameItems_iff]
      constructor
      · rintro ⟨hlength, h⟩
        exact .array hlength fun i x y hx hy => (hpair i x y hx hy).mp (h i x y hx hy)
      · rintro (_ | ⟨hlength, h⟩)
        exact ⟨hlength, fun i x y hx hy => (hpair i x y hx hy).mpr (h i x y hx hy)⟩
    | leaf | object => exact ⟨nofun, nofun⟩
  | object ms ih =>
    cases u with
    | object ns =>
      have hpair : ∀ k t u, (k, t) ∈ ms → (k, u) ∈ ns → (t.same u = true ↔ t.Alike u) :=
        fun k t u htm hun => ih (k, t) htm
          (namesNodupMembers_iff.mp ht.2 t (List.mem_map_of_mem htm))
          (namesNodupMembers_iff.mp hu.2 u (List.mem_map_of_mem hun))
      rw [same, Bool.and_eq_true, beq_iff_eq, sameMembers_iff]
      constructor
      · rintro ⟨hlength, h⟩
        have hfound : ∀ k t, (k, t) ∈ ms → ∃ u, (k, u) ∈ ns ∧ t.same u = true := fun k t htm =>
          let ⟨u, hu', hsame⟩ := h (k, t) htm
          ⟨u, Members.mem_of_find?_eq_some hu', hsame⟩
        refine .object (Members.mem_names_iff_of_length_eq ht.1 hlength fun k hk => ?_)
          fun k t u htm hun => ?_
        · obtain ⟨t, htm⟩ := Members.exists_mem_of_mem_names hk
          obtain ⟨u, hun, -⟩ := hfound k t htm
          exact Members.mem_names_of_mem hun
        · obtain ⟨u', hun', hsame⟩ := hfound k t htm
          obtain rfl := Members.eq_of_mem_of_mem hu.1 hun hun'
          exact (hpair k t u htm hun).mp hsame
      · rintro (_ | _ | ⟨hnames, h⟩)
        refine ⟨Members.length_eq_of_mem_names_iff ht.1 hu.1 hnames, fun ⟨k, t⟩ htm => ?_⟩
        obtain ⟨u, hun⟩ := Members.exists_mem_of_mem_names
          ((hnames k).mp (Members.mem_names_of_mem htm))
        exact ⟨u, (Members.find?_eq_some_iff hu.1).mpr hun,
          (hpair k t u htm hun).mpr (h k t u htm hun)⟩
    | leaf | array => exact ⟨nofun, nofun⟩

theorem same_comm {t u : Tree Scalar} (ht : t.NamesNodup) (hu : u.NamesNodup) :
    t.same u = u.same t := by
  rw [Bool.eq_iff_iff, same_iff ht hu, same_iff hu ht]
  exact ⟨AlikeBy.symm fun _ _ => .symm, AlikeBy.symm fun _ _ => .symm⟩

theorem same_trans {t u v : Tree Scalar} (ht : t.NamesNodup) (hu : u.NamesNodup)
    (hv : v.NamesNodup) (htu : t.same u = true) (huv : u.same v = true) : t.same v = true := by
  rw [same_iff ht hu] at htu
  rw [same_iff hu hv] at huv
  exact (same_iff ht hv).mpr (htu.trans (fun _ _ _ => .trans) huv)

/-- A tree is equal to itself unless it has a NaN. -/
theorem same_self_iff {t : Tree Scalar} (ht : t.NamesNodup) :
    t.same t = true ↔ t.All fun s => s.isNaN = false := by
  refine (same_iff ht ht).trans ((alikeBy_self_iff ht).trans ⟨?_, ?_⟩)
  · exact All.mono fun _ => Scalar.equal_self_iff.mp
  · exact All.mono fun _ => Scalar.equal_self_iff.mpr

/-- The order of members does not matter to the test. -/
theorem same_congr_left {t t' u : Tree Scalar} (ht : t.NamesNodup) (ht' : t'.NamesNodup)
    (hu : u.NamesNodup) (h : t.AlikeBy Eq t') : t.same u = t'.same u := by
  rw [Bool.eq_iff_iff, same_iff ht hu, same_iff ht' hu]
  exact ⟨(h.symm fun _ _ => Eq.symm).trans fun _ _ _ heq => heq ▸ id,
    h.trans fun _ _ _ heq => heq ▸ id⟩

end Tree

end Reshape
