import BoxTree.Proofs.AddedNodes
import BoxTree.Proofs.TreeOfForest
import BoxTree.Syntax.Pruning

namespace BoxTree

/-!
# Every tree can be planted

Whatever labels a tree has, adding its nodes one by one leads to a forest that has the tree, up to its
numbers.

* `Tree.unnumbered_node` — a tree without its numbers, by its children.
* `Forest.Linked.tree_congr` — a tree depends on the nodes of its root and behind it only.
* `Forest.Planted` — a forest with one more tree below a node.
* `Forest.exists_planted`, `Forest.exists_tree` — every tree can be planted below every node, and in the
  empty forest.
-/

namespace Tree

theorem unnumberedAll_eq_map (trees : List Tree) : unnumberedAll trees = trees.map unnumbered := by
  induction trees with
  | nil => rfl
  | cons tree rest ih => rw [unnumberedAll, ih, List.map_cons]

/-- Without numbers, a tree is its label and its children without numbers. -/
theorem unnumbered_node (id : Nat) (label : Label) (children : List Tree) :
    (node id label children).unnumbered = node 0 label (children.map unnumbered) := by
  rw [unnumbered, unnumberedAll_eq_map]

end Tree

namespace Forest

variable {forest after : Forest} {label : Label} {parent : Option Nat} {id m : Nat}

/-- Nodes behind a number keep their trees if they keep their labels and children. -/
theorem Linked.tree_congr (linked : forest.Linked) (linked' : after.Linked)
    (same : ∀ x ≥ m, x < forest.size →
      after.label x = forest.label x ∧ after.childList x = forest.childList x)
    (hm : m ≤ id) (hid : id < forest.size) : after.tree id = forest.tree id := by
  induction id using linked.childInduction with
  | step id ih =>
    obtain ⟨hlabel, hchildren⟩ := same id hm hid
    rw [linked.tree_eq, linked'.tree_eq, hlabel, hchildren]
    congr 1
    refine List.map_congr_left fun child hchild => ih child hchild ?_ (lt_size_of_mem_childList linked hchild)
    exact hm.trans (linked.parent_lt (linked.mem_childList.mp hchild)).le

/-- The forest `after` has one more tree than `forest`, below a node or as a root. -/
structure Planted (forest after : Forest) (parent : Option Nat) (tree : Tree) : Prop where
  grown : after.Grown
  size : forest.size < after.size
  label : ∀ x < forest.size, after.label x = forest.label x
  childList : ∀ x < forest.size, after.childList x =
    if parent = some x then forest.childList x ++ [forest.size] else forest.childList x
  tree : (after.tree forest.size).unnumbered = tree.unnumbered

/-- The forest `after` has more trees than `forest` below the node `m`. -/
structure PlantedAll (forest after : Forest) (m : Nat) (trees : List Tree) : Prop where
  grown : after.Grown
  size : forest.size ≤ after.size
  label : ∀ x < forest.size, after.label x = forest.label x
  childList : ∀ x < forest.size, x ≠ m → after.childList x = forest.childList x
  trees : ∃ new, after.childList m = forest.childList m ++ new ∧
    new.map (fun id => (after.tree id).unnumbered) = trees.map Tree.unnumbered

/-- Trees can be planted one by one. -/
theorem exists_plantedAll {trees : List Tree}
    (each : ∀ tree ∈ trees, ∀ forest : Forest, forest.Grown → m < forest.size →
      ∃ after, Planted forest after (some m) tree)
    (grown : forest.Grown) (hm : m < forest.size) : ∃ after, PlantedAll forest after m trees := by
  induction trees generalizing forest with
  | nil => exact ⟨forest, grown, le_refl _, fun _ _ => rfl, fun _ _ _ => rfl, [], by simp, rfl⟩
  | cons tree rest ih =>
    obtain ⟨hfirst, hrest⟩ := List.forall_mem_cons.mp each
    obtain ⟨between, planted⟩ := hfirst forest grown hm
    obtain ⟨after, others⟩ := ih hrest planted.grown (hm.trans planted.size)
    obtain ⟨new, hnew, htrees⟩ := others.trees
    have hsame : after.tree forest.size = between.tree forest.size := by
      refine planted.grown.linked.tree_congr others.grown.linked (m := forest.size) (fun x hx hlt => ?_)
        (le_refl _) planted.size
      exact ⟨others.label x hlt, others.childList x hlt (by omega)⟩
    refine ⟨after, others.grown, planted.size.le.trans others.size, fun x hx => ?_, fun x hx hne => ?_,
      forest.size :: new, ?_, ?_⟩
    · rw [others.label x (hx.trans planted.size), planted.label x hx]
    · rw [others.childList x (hx.trans planted.size) hne, planted.childList x hx,
        if_neg (by simpa using hne.symm)]
    · rw [hnew, planted.childList m hm, if_pos rfl, List.append_assoc, List.singleton_append]
    · rw [List.map_cons, List.map_cons, htrees, hsame, planted.tree]

/-- **Every tree can be planted**, below every node and as a root. -/
theorem exists_planted (tree : Tree) (grown : forest.Grown)
    (known : ∀ above, parent = some above → above < forest.size) :
    ∃ after, Planted forest after parent tree := by
  induction tree using Tree.induction generalizing forest parent with
  | node id label children ih =>
    have hknown : ∀ above, parent = some above → forest.node? above ≠ none := fun above h => by
      simpa [node?, size] using known above h
    obtain ⟨first, -, hadd, hsize, -⟩ := exists_add_of_known hknown label
    have hgrown : first.Grown := grown.add hadd
    have heach : ∀ tree ∈ children, ∀ other : Forest, other.Grown → forest.size < other.size →
        ∃ after, Planted other after (some forest.size) tree := fun tree htree other grown' hm =>
      ih tree htree grown' fun above h => Option.some.inj h ▸ hm
    obtain ⟨after, below⟩ := exists_plantedAll heach hgrown (by omega)
    obtain ⟨new, hnew, htrees⟩ := below.trees
    -- The root of the tree is a new node, without children at first.
    have hnone : first.childList forest.size = [] := by
      have hparent : parent ≠ some forest.size := fun h => (known _ h).ne rfl
      rw [childList_add hadd, if_neg hparent]
      simp [childList, children?, node?_size]
    refine ⟨after, below.grown, by have := below.size; omega, fun x hx => ?_, fun x hx => ?_, ?_⟩
    · rw [below.label x (by omega), label_add hadd, if_neg hx.ne]
    · rw [below.childList x (by omega) hx.ne, childList_add hadd]
    · rw [below.grown.linked.tree_eq, Tree.unnumbered_node, Tree.unnumbered_node, hnew, hnone,
        List.nil_append, List.map_map, below.label _ (by omega), label_add hadd, if_pos rfl, ← htrees]
      rfl

/-- **Every tree is that of a grown forest**, up to its numbers. -/
theorem exists_tree (tree : Tree) :
    ∃ forest : Forest, forest.Grown ∧ forest.contains 0 = true ∧
      (forest.tree 0).unnumbered = tree.unnumbered := by
  have hknown : ∀ above, none = some above → above < size {} := fun above h => by cases h
  obtain ⟨forest, planted⟩ := exists_planted tree .empty hknown
  exact ⟨forest, planted.grown, decide_eq_true planted.size, planted.tree⟩

end Forest

end BoxTree
