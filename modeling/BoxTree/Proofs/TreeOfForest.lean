import BoxTree.Proofs.GrownForest

namespace BoxTree

/-!
# The trees of a grown forest

* `Tree.induction` — what holds of a node once it holds of the trees below it holds of all trees.
* `Forest.ancestor?` — the node so many parents above a node.
* `Forest.Linked.childInduction` — what holds of a node once it holds of its children holds of all.
* `Forest.Linked.tree_eq` — the tree of a node is the node with the trees of its children.
* `Forest.Linked.mem_preorder_tree` — a tree consists of the nodes that climb to its root.
* `Forest.Linked.nodup_preorder_tree` — no node stands in a tree twice.
-/

namespace Tree

/-- What holds of a node whenever it holds of the trees below it holds of every tree. -/
@[elab_as_elim]
theorem induction {motive : Tree → Prop}
    (node : ∀ id label children, (∀ tree ∈ children, motive tree) →
      motive (.node id label children)) : ∀ tree, motive tree
  | .node id label children => node id label children fun tree _ => induction node tree

/-- Several trees in turn, as one list of lists. -/
theorem preorderAll_eq_flatMap (trees : List Tree) : preorderAll trees = trees.flatMap preorder := by
  induction trees with
  | nil => rfl
  | cons tree rest ih => rw [preorderAll, List.flatMap_cons, ih]

end Tree

namespace Forest

variable {forest : Forest} {id above child root n m : Nat}

/-- The node `n` parents above a node. -/
def ancestor? (forest : Forest) : Nat → Nat → Option Nat
  | 0, id => some id
  | n + 1, id => (forest.parent? id).bind (ancestor? forest n)

/-- An ancestor one further up is an ancestor of the parent. -/
theorem ancestor?_succ (h : forest.parent? id = some above) :
    forest.ancestor? (n + 1) id = forest.ancestor? n above := by
  rw [ancestor?, h, Option.bind_some]

/-- A climb in two parts is the second part from where the first one leads. -/
theorem ancestor?_add (h : forest.ancestor? n id = some above) (m : Nat) :
    forest.ancestor? (n + m) id = forest.ancestor? m above := by
  induction n generalizing id with
  | zero =>
    obtain rfl := Option.some.inj h
    rw [Nat.zero_add]
  | succ n ih =>
    obtain ⟨parent, hparent, hrest⟩ := Option.bind_eq_some_iff.mp h
    rw [Nat.add_right_comm, ancestor?_succ hparent, ih hrest]

/-- A climb may take its last step last as well as first. -/
theorem ancestor?_succ' (n id : Nat) :
    forest.ancestor? (n + 1) id = (forest.ancestor? n id).bind forest.parent? := by
  induction n generalizing id with
  | zero => simp [ancestor?]
  | succ n ih =>
    rw [ancestor?, ancestor?, Option.bind_assoc]
    exact congrArg _ (funext ih)

/-- Ancestors come before their descendants. -/
theorem Linked.ancestor?_le (linked : forest.Linked) (h : forest.ancestor? n id = some above) :
    above + n ≤ id := by
  induction n generalizing id with
  | zero =>
    obtain rfl := Option.some.inj h
    exact le_refl _
  | succ n ih =>
    obtain ⟨parent, hparent, hrest⟩ := Option.bind_eq_some_iff.mp h
    have := linked.parent_lt hparent
    have := ih hrest
    omega

/-- Siblings have no descendant in common. -/
theorem Linked.sibling_eq (linked : forest.Linked) {a b x : Nat}
    (ha : forest.parent? a = some above) (hb : forest.parent? b = some above)
    (hxa : forest.ancestor? n x = some a) (hxb : forest.ancestor? m x = some b) : a = b := by
  wlog hle : n ≤ m generalizing a b n m
  · exact (this hb ha hxb hxa (by omega)).symm
  obtain ⟨k, rfl⟩ := Nat.exists_eq_add_of_le hle
  rw [ancestor?_add hxa] at hxb
  cases k with
  | zero => exact Option.some.inj hxb
  | succ k =>
    -- `b` would be an ancestor of its own parent.
    rw [ancestor?_succ ha] at hxb
    have := linked.ancestor?_le hxb
    have := linked.parent_lt hb
    omega

/-! ### Down the children -/

/-- What holds of a node once it holds of its children holds of every node. -/
theorem Linked.childInduction (linked : forest.Linked) {motive : Nat → Prop}
    (step : ∀ id, (∀ child ∈ forest.childList id, motive child) → motive id) (id : Nat) :
    motive id := by
  induction h : forest.size - id using Nat.strongRecOn generalizing id with
  | _ k ih =>
    -- Children have greater numbers, so the distance to the size gets smaller.
    refine step id fun child hchild => ?_
    have hparent := linked.mem_childList.mp hchild
    have := linked.parent_lt hparent
    have := lt_size_of_parent? hparent
    exact ih (forest.size - child) (by omega) child rfl

/-- More depth than there are nodes behind a number changes nothing. -/
theorem Linked.treeTo_succ (linked : forest.Linked) (depth id : Nat)
    (h : forest.size ≤ id + depth + 1) : forest.treeTo (depth + 1) id = forest.treeTo depth id := by
  have hlater : ∀ child ∈ forest.childList id, id < child ∧ child < forest.size := fun child hchild =>
    ⟨linked.parent_lt (linked.mem_childList.mp hchild), lt_size_of_mem_childList linked hchild⟩
  induction depth generalizing id with
  | zero =>
    -- Behind the last number there is no room for children.
    have hnil : forest.childList id = [] := by
      refine List.eq_nil_iff_forall_not_mem.mpr fun child hchild => ?_
      have := hlater child hchild
      omega
    rw [treeTo, treeTo]
    show Tree.node _ _ ((forest.childList id).map _) = _
    rw [hnil, List.map_nil]
  | succ depth ih =>
    rw [treeTo, treeTo.eq_2]
    congr 1
    refine List.map_congr_left fun child hchild => ?_
    have := hlater child hchild
    refine ih child (by omega) fun grandchild hgrandchild => ?_
    exact ⟨linked.parent_lt (linked.mem_childList.mp hgrandchild),
      lt_size_of_mem_childList linked hgrandchild⟩

/-- **The tree of a node is the node with the trees of its children.** -/
theorem Linked.tree_eq (linked : forest.Linked) (id : Nat) :
    forest.tree id = .node id (forest.label id) ((forest.childList id).map forest.tree) := by
  -- One level more than needed makes the recursion visible.
  have hsucc : forest.tree id = forest.treeTo (forest.size + 1) id :=
    (linked.treeTo_succ forest.size id (by omega)).symm
  rw [hsucc, treeTo]
  rfl

/-- The nodes of a tree other than its root. -/
def below (forest : Forest) (id : Nat) : List Nat :=
  (forest.childList id).flatMap fun child => (forest.tree child).preorder

/-- A tree is its root and the nodes below it. -/
theorem Linked.preorder_tree (linked : forest.Linked) (id : Nat) :
    (forest.tree id).preorder = id :: forest.below id := by
  rw [linked.tree_eq, Tree.preorder, Tree.preorderAll_eq_flatMap, List.flatMap_map, below]

@[simp] theorem Linked.tree_id (linked : forest.Linked) (id : Nat) : (forest.tree id).id = id := by
  rw [linked.tree_eq, Tree.id]

/-- A tree consists of the nodes that climb to its root. -/
theorem Linked.mem_preorder_tree (linked : forest.Linked) {x : Nat} :
    x ∈ (forest.tree root).preorder ↔ ∃ n, forest.ancestor? n x = some root := by
  induction root using linked.childInduction with
  | step root ih =>
    rw [linked.preorder_tree, List.mem_cons, below, List.mem_flatMap]
    constructor
    · rintro (rfl | ⟨child, hchild, hx⟩)
      · exact ⟨0, rfl⟩
      · obtain ⟨n, hn⟩ := (ih child hchild).mp hx
        refine ⟨n + 1, ?_⟩
        rw [ancestor?_add hn, ancestor?_succ (linked.mem_childList.mp hchild), ancestor?]
    · rintro ⟨n, hn⟩
      cases n with
      | zero => exact .inl (Option.some.inj hn)
      | succ n =>
        -- The last step of the climb starts at a child of the root.
        rw [ancestor?_succ'] at hn
        obtain ⟨child, hclimb, hparent⟩ := Option.bind_eq_some_iff.mp hn
        have hchild := linked.mem_childList.mpr hparent
        exact .inr ⟨child, hchild, (ih child hchild).mpr ⟨n, hclimb⟩⟩

/-- **No node stands in a tree twice.** -/
theorem Linked.nodup_preorder_tree (linked : forest.Linked) (root : Nat) :
    (forest.tree root).preorder.Nodup := by
  induction root using linked.childInduction with
  | step root ih =>
    rw [linked.preorder_tree, List.nodup_cons, below, List.nodup_flatMap]
    refine ⟨?_, ih, ?_⟩
    -- The root is not below any of its children,
    · intro hmem
      obtain ⟨child, hchild, hroot⟩ := List.mem_flatMap.mp hmem
      obtain ⟨n, hn⟩ := linked.mem_preorder_tree.mp hroot
      have := linked.ancestor?_le hn
      have := linked.parent_lt (linked.mem_childList.mp hchild)
      omega
    -- and two children have no node in common.
    · refine (linked.sorted root).imp_of_mem fun {a b} ha hb hlt => ?_
      intro x hxa hxb
      obtain ⟨n, hn⟩ := linked.mem_preorder_tree.mp hxa
      obtain ⟨m, hm⟩ := linked.mem_preorder_tree.mp hxb
      have := linked.sibling_eq (linked.mem_childList.mp ha) (linked.mem_childList.mp hb) hn hm
      omega

/-- A tree has no more nodes than its forest. -/
theorem Linked.length_preorder_tree_le (linked : forest.Linked) (h : root < forest.size) :
    (forest.tree root).preorder.length ≤ forest.size := by
  have hsub : (forest.tree root).preorder ⊆ List.range forest.size := by
    intro x hx
    obtain ⟨n, hn⟩ := linked.mem_preorder_tree.mp hx
    rw [List.mem_range]
    cases n with
    | zero =>
      obtain rfl := Option.some.inj hn
      exact h
    | succ n =>
      obtain ⟨parent, hparent, -⟩ := Option.bind_eq_some_iff.mp hn
      exact lt_size_of_parent? hparent
  have hlen := ((linked.nodup_preorder_tree root).subperm hsub).length_le
  rwa [List.length_range] at hlen

end Forest

end BoxTree
