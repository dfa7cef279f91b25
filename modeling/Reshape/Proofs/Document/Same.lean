import Reshape.Proofs.Document.Reachable
import Reshape.Proofs.Tree.Same

/-!
# Equal nodes

Two nodes are compared by the trees below them, so that neither their numbers nor what else is in
their documents matters. In documents that can arise no object repeats a name, and the comparison
is an equivalence there, but for NaNs.

## Main definitions

* `Document.Node.tree`: the tree below a node.
* `Document.Node.Valid`: nodes of documents that can arise.

## Main statements

* `Document.same_nodes`.
-/

namespace Reshape.Document

namespace Node

/-- The tree below a node. -/
def tree (n : Node) : Tree Scalar := n.document.tree n.id

/-- The number is that of a node of a well-formed document. -/
structure Valid (n : Node) : Prop where
  wellFormed : n.document.WellFormed
  id_lt : n.id < n.document.nodes.size

theorem Valid.shows {n : Node} (h : n.Valid) : Shows n.document n.id n.tree :=
  h.wellFormed.rooted.forest.shows_tree h.id_lt

theorem Valid.namesNodup {n : Node} (h : n.Valid) : n.tree.NamesNodup :=
  h.wellFormed.rooted.forest.namesNodup_tree h.id_lt

end Node

/-- Nodes are equal if what lies below them is equal apart from the order of members. This is
symmetric and transitive, and holds of a node and itself unless there is a NaN below it. A node may
be replaced by one of any other document that shows the same tree with its members in any order.
Documents are compared by their roots. -/
theorem same_nodes {a b c : Node} (ha : a.Valid) (hb : b.Valid) (hc : c.Valid) :
    (∃ t u, Shows a.document a.id t ∧ Shows b.document b.id u ∧
      (a.tree.same b.tree = true ↔ t.Alike u)) ∧
    a.tree.same b.tree = b.tree.same a.tree ∧
    (a.tree.same b.tree = true → b.tree.same c.tree = true → a.tree.same c.tree = true) ∧
    (a.tree.same a.tree = true ↔ a.tree.All fun s => s.isNaN = false) ∧
    (a.tree.AlikeBy Eq c.tree → a.tree.same b.tree = c.tree.same b.tree) := by
  refine ⟨⟨a.tree, b.tree, ha.shows, hb.shows, ?_⟩, ?_, ?_, ?_, ?_⟩
  · exact Tree.same_iff ha.namesNodup hb.namesNodup
  · exact Tree.same_comm ha.namesNodup hb.namesNodup
  · exact Tree.same_trans ha.namesNodup hb.namesNodup hc.namesNodup
  · exact Tree.same_self_iff ha.namesNodup
  · exact Tree.same_congr_left ha.namesNodup hc.namesNodup hb.namesNodup

/-- What is read of an object with a repeated name, a copy with the members exchanged and a zero of
the other sign, and an array of a NaN. -/
theorem same_nodes_exchanged :
    let zero (negative : Bool) : Tree Scalar := .leaf (.float (.zero .single negative))
    let read : Tree Scalar := .object [("x", .leaf .null), ("y", .array [zero false]),
      ("x", .leaf (.integer 1))]
    let exchanged : Tree Scalar := .object [("y", .array [zero true]), ("x", .leaf (.integer 1))]
    let nan : Tree Scalar := .array [.leaf (.double (.nan .double))]
    let a : Node := ⟨ofReading read, 0⟩
    let b : Node := ⟨ofTree exchanged, 3⟩
    let c : Node := ⟨ofTree nan, 1⟩
    a.Valid ∧ b.Valid ∧ c.Valid ∧
      (∃ t u, Shows a.document a.id t ∧ Shows b.document b.id u ∧ t.Alike u) ∧
      b.tree.same a.tree = true ∧ c.tree.same c.tree = false := by
  intro zero read exchanged nan a b c
  have hnodup : exchanged.NamesNodup ∧ nan.NamesNodup := by
    simp [exchanged, nan, Tree.NamesNodup, Tree.NamesNodupMembers, Tree.NamesNodupItems, zero]
  have ha : a.Valid := ⟨(rooted_ofReading read).wellFormed, by decide +kernel⟩
  have hb : b.Valid := ⟨(rooted_ofTree hnodup.1).wellFormed, by decide +kernel⟩
  have hc : c.Valid := ⟨(rooted_ofTree hnodup.2).wellFormed, by decide +kernel⟩
  have hab : a.tree.same b.tree = true := by decide +kernel
  obtain ⟨⟨t, u, ht, hu, halike⟩, hcomm, -⟩ := same_nodes ha hb hc
  exact ⟨ha, hb, hc, ⟨t, u, ht, hu, halike.mp hab⟩, hcomm ▸ hab, by decide +kernel⟩

end Reshape.Document
