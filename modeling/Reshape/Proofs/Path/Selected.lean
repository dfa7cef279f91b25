import Reshape.Proofs.Document.Preorder
import Reshape.Proofs.Path.Filter
import Reshape.Proofs.Template.Output

/-!
# Documents of selected nodes

The nodes that a path selects are copied one by one into an arena that begins with an empty array.
Each copy is on top of its own tree until the array takes it, and what the array has taken before is
left as it is. So it does not matter that a node is selected twice, or together with what lies below
it: there is a copy for each selection, and no two copies have a node in common.

## Main statements

* `Json.compactItems_eq`: the texts of the elements have commas between them.
* `Rooted.pushElement_addCopy`: a copy is taken by an array on top.
* `Rooted.exists_pushCopies`: copies are taken one after the other.
* `Document.selectDocument_eq`.
-/

namespace Reshape

/-- Without white space, elements are separated by commas. -/
theorem Json.compactItems_eq (ts : List (Tree Scalar)) :
    compactItems ts = [','].intercalate (ts.map compact) := by
  induction ts with
  | nil => rfl
  | cons t rest ih =>
    rw [compactItems, ih]
    cases rest with
    | nil => simp
    | cons u rest => simp [List.intercalate_cons_cons]

/-- The text of an array. -/
theorem Tree.toJson_array (ts : List (Tree Scalar)) :
    (array ts).toJson = "[" ++ ",".intercalate (ts.map toJson) ++ "]" := by
  refine String.toList_inj.mp ?_
  have hchars : (ts.map toJson).map String.toList = ts.map Json.compact := by
    rw [List.map_map]
    exact List.map_congr_left fun t _ => String.toList_ofList
  rw [toJson, String.toList_ofList, Json.compact, Json.compactItems_eq, String.toList_append,
    String.toList_append, String.toList_intercalate, hchars]
  rfl

namespace Document

variable {d : Document}

/-- Trees lie below elements if each of them lies below the element at its position. -/
theorem showsItems_iff {ids : List NodeId} {ts : List (Tree Scalar)} :
    ShowsItems d ids ts ↔ List.Forall₂ (Shows d) ids ts := by
  induction ts generalizing ids with
  | nil => rw [ShowsItems, List.forall₂_nil_right_iff]
  | cons t ts ih =>
    rw [ShowsItems, List.forall₂_cons_right_iff]
    simp only [ih]
    constructor
    · rintro ⟨id, rest, rfl, ht, hts⟩
      exact ⟨id, rest, ht, hts, rfl⟩
    · rintro ⟨id, rest, ht, hts, rfl⟩
      exact ⟨id, rest, rfl, ht, hts⟩

theorem pushCopies_cons (d : Document) (t : Tree Scalar) (ts : List (Tree Scalar)) :
    d.pushCopies (t :: ts) =
      ((d.addCopy t).1.pushElement (d.addCopy t).1.root (d.addCopy t).2).bind (·.pushCopies ts) :=
  rfl

namespace Rooted

variable (h : d.Rooted)
include h

/-- What lies below one element of an array does not lie below another. -/
theorem disjoint_preorder {p : NodeId} {items : List NodeId} (hp : d.content p = .array items) :
    items.Pairwise fun a b => List.Disjoint (d.preorder a) (d.preorder b) := by
  have hchildren : d.children p = items := by rw [children, hp, Content.children]
  rw [← hchildren]
  refine (h.forest.children_nodup p).imp_of_mem fun ha hb hne => ?_
  exact fun m hma hmb => hne (h.eq_of_mem_preorder ha hb hma hmb)

/-- A copy becomes the last element of an array that is the root. -/
theorem pushElement_addCopy {items : List NodeId} (hc : d.content d.root = .array items)
    {t : Tree Scalar} (ht : t.NamesNodup) :
    let d₁ := (d.addCopy t).1
    let id := (d.addCopy t).2
    let d₂ := d₁.linkElement d.root items items.length id
    d₁.pushElement d₁.root id = .ok d₂ ∧ d₂.Rooted ∧ d₂.root = d.root ∧
      d₂.content d₂.root = .array (items ++ [id]) := by
  intro d₁ id d₂
  have hl : Laid [] d d₁ id t := laid_addCopy ht h.forest
  have hroot : d₁.root = d.root := hl.ext.root_eq
  have hc₁ : d₁.content d.root = .array items := (hl.ext.content_eq h.root_lt).trans hc
  have hp₁ : d₁.parent d.root = none := (hl.ext.parent_eq h.root_lt).trans h.parent_root
  have hne : id ≠ d.root := Nat.ne_of_gt (Nat.lt_of_lt_of_le h.root_lt hl.le_id)
  have hpush : d₁.pushElement d₁.root id = .ok d₂ := by
    rw [hroot, pushElement_eq_ok_iff]
    exact ⟨items, hc₁, attachable_of_parent_eq_none hp₁ hl.parent_id (hroot ▸ hne) hne, rfl⟩
  refine ⟨hpush, (h.extend hl.ext hl.forest).pushElement hl.id_lt hpush, hroot, ?_⟩
  rw [content_linkElement (lt_size_of_content_array hc₁), if_pos (show d₂.root = d.root from hroot),
    List.insertIdx_length_self]

/-- Copies of trees become the further elements of an array that is the root. -/
theorem exists_pushCopies {items : List NodeId} (hc : d.content d.root = .array items)
    {ts : List (Tree Scalar)} (hts : ∀ t ∈ ts, t.NamesNodup) :
    ∃ d', d.pushCopies ts = .ok d' ∧ d'.Rooted ∧ LaidItems d d.root items d' ts := by
  induction ts generalizing d items with
  | nil => exact ⟨d, rfl, h, .nil h.forest hc h.parent_root⟩
  | cons t ts ih =>
    rw [List.forall_mem_cons] at hts
    obtain ⟨hpush, hd₂, hroot, hc₂⟩ := h.pushElement_addCopy hc hts.1
    obtain ⟨d', hd', hrooted, hlaid⟩ := ih hd₂ hc₂ hts.2
    refine ⟨d', ?_, hrooted, .cons (laid_addCopy hts.1 h.forest) h.root_lt (hroot ▸ hlaid)⟩
    rw [pushCopies_cons, hpush]
    exact hd'

end Rooted

/-- The document of the selected nodes is made whatever they are. Its root is an array with an
element for each selection, in order, that shows the tree of the selected node. No node lies below
two elements, and the text is that of the selected nodes with commas between them. -/
theorem selectDocument_eq (h : d.WellFormed) (p : Path) :
    let selected := d.select none p d.root
    ∃ out items, d.selectDocument p = .ok out ∧ out.WellFormed ∧
      out.content out.root = .array items ∧ items.length = selected.length ∧
      List.Forall₂ (fun node item => ∃ t, Shows d node t ∧ Shows out item t) selected items ∧
      items.Pairwise (fun a b => List.Disjoint (out.preorder a) (out.preorder b)) ∧
      out.toJson = "[" ++ ",".intercalate (selected.map d.nodeJson) ++ "]" := by
  intro selected
  have hlt : ∀ m ∈ selected, m < d.nodes.size := fun m hm =>
    ForestWith.lt_size_of_mem_walk h.rooted.forest
      (ForestWith.origin_lt_size h.rooted.forest h.root_lt p) hm
  have hnames : ∀ t ∈ selected.map d.tree, t.NamesNodup :=
    List.forall_mem_map.mpr fun m hm => h.rooted.forest.namesNodup_tree (hlt m hm)
  have hnew : (new (.array [])).Rooted := rooted_new rfl
  have hempty : (new (.array [])).content (new (.array [])).root = .array [] := rfl
  obtain ⟨out, hout, hrooted, hlaid⟩ := hnew.exists_pushCopies hempty hnames
  obtain ⟨items, hitems, hshows⟩ := hlaid.shows
  have hcontent : out.content out.root = .array items := hlaid.root_eq ▸ hitems
  have hall : ShowsItems out items (selected.map d.tree) := hshows out fun _ _ _ => rfl
  have htrees : List.Forall₂ (fun node item => Shows out item (d.tree node)) selected items :=
    (List.forall₂_map_right_iff.mp (showsItems_iff.mp hall)).flip
  refine ⟨out, items, hout, hrooted.wellFormed, hcontent, htrees.length_eq.symm, ?_,
    hrooted.disjoint_preorder hcontent, ?_⟩
  · have hnodes : ∀ m ∈ selected, Shows d m (d.tree m) := fun m hm =>
      h.rooted.forest.shows_tree (hlt m hm)
    exact ((List.forall₂_and_left _ _).mpr ⟨hnodes, htrees⟩).imp fun m item hm => ⟨d.tree m, hm⟩
  · have htree : out.toTree = .array (selected.map d.tree) :=
      hrooted.forest.tree_eq hrooted.root_lt ⟨items, hcontent, hall⟩
    rw [toJson, htree, Tree.toJson_array, List.map_map]
    rfl

/-- Two elements of an array, and with each of them the array itself. -/
theorem selectDocument_eq_ancestors :
    let d := ofReading (.array [.leaf .null, .leaf (.boolean true)])
    let p := Path.compile "/*/ancestor-or-self::."
    d.WellFormed ∧ d.select none p d.root = [1, 0, 2, 0] ∧
      ∃ out items, d.selectDocument p = .ok out ∧ out.content out.root = .array items ∧
        items.length = 4 ∧
        items.Pairwise (fun a b => List.Disjoint (out.preorder a) (out.preorder b)) ∧
        out.toJson = "[null,[null,true],true,[null,true]]" := by
  intro d p
  have hd : d.WellFormed := (rooted_ofReading _).wellFormed
  have hselect : d.select none p d.root = [1, 0, 2, 0] := by decide +kernel
  obtain ⟨out, items, hout, -, hitems, hlength, -, hdisjoint, hjson⟩ := selectDocument_eq hd p
  rw [hselect] at hlength hjson
  exact ⟨hd, hselect, out, items, hout, hitems, hlength, hdisjoint,
    hjson.trans (by decide +kernel)⟩

end Document

end Reshape
