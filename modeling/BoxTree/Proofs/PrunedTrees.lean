import BoxTree.Proofs.CursorMoves
import BoxTree.Proofs.PlantedTrees
import BoxTree.Proofs.StreamConsumed

namespace BoxTree

/-!
# Pruned trees are rendered alike

A hidden tree is as good as absent, and a collapsed node as good as childless. Which lines come out does not
depend on what is taken away, nor on the numbers of the nodes that are left.

* `Tree.outline_unnumbered` — the outline of a tree does not depend on its numbers.
* `Forest.Headed` — a node that is shown has no children or one that is not hidden.
* `Forest.Linked.outline_pruned` — the outline of a tree is that of the pruned tree.
-/

open Report

namespace Tree

variable {theme : Theme} {source : String} {decide decide' : Nat → Visibility}

/-! ### Numbers do not matter -/

/-- Each node has the label of its number. -/
inductive Labelled (label : Nat → Label) : Tree → Prop
  | node {id : Nat} {children : List Tree} (below : ∀ tree ∈ children, Labelled label tree) :
      Labelled label (.node id (label id) children)

/-- A tree is labelled at its topmost node too. -/
theorem Labelled.label_id {label : Nat → Label} {tree : Tree} (h : tree.Labelled label) :
    label tree.id = tree.label := by
  cases h
  rfl

/-- A tree without its numbers has its labels still. -/
theorem label_unnumbered (tree : Tree) : tree.unnumbered.label = tree.label := by
  cases tree with
  | node id label children => rw [unnumbered_node]; rfl

/-- Trees that are decided alike and have the same outlines one by one have the same outline together. -/
theorem outlineAll_congr {trees others : List Tree}
    (h : List.Forall₂ (fun tree other : Tree => decide tree.id = decide' other.id ∧
      tree.outline theme source decide = other.outline theme source decide') trees others) :
    outlineAll theme source decide trees = outlineAll theme source decide' others := by
  induction h with
  | nil => rfl
  | @cons tree other rest others hfirst hrest ih =>
    have hall : (rest.all fun tree => decide tree.id = .hidden) =
        others.all fun tree => decide' tree.id = .hidden := by
      clear ih
      induction hrest with
      | nil => rfl
      | cons hfirst _ ih => rw [List.all_cons, List.all_cons, hfirst.1, ih]
    rw [outlineAll, outlineAll, hall, hfirst.2, ih]

/-- Lists with the same images are related member by member. -/
theorem forall₂_of_map_eq {α β : Type} {f : α → β} {related : α → α → Prop} {l l' : List α}
    (h : l.map f = l'.map f) (each : ∀ a ∈ l, ∀ b ∈ l', f a = f b → related a b) :
    List.Forall₂ related l l' := by
  induction l generalizing l' with
  | nil =>
    obtain rfl := List.map_eq_nil_iff.mp h.symm
    exact .nil
  | cons a rest ih =>
    obtain ⟨b, rest', rfl, hfirst, hrest⟩ := List.map_eq_cons_iff.mp h.symm
    refine .cons (each a (List.mem_cons_self ..) b (List.mem_cons_self ..) hfirst.symm) (ih hrest.symm ?_)
    exact fun a ha b hb => each a (List.mem_cons_of_mem _ ha) b (List.mem_cons_of_mem _ hb)

/-- **The outline of a tree does not depend on its numbers**, if decisions go by label. -/
theorem outline_unnumbered {label label' : Nat → Label} (decide : Label → Visibility) {tree other : Tree}
    (labelled : tree.Labelled label) (labelled' : other.Labelled label')
    (h : tree.unnumbered = other.unnumbered) :
    tree.outline theme source (fun id => decide (label id)) =
      other.outline theme source fun id => decide (label' id) := by
  induction labelled generalizing other with
  | @node id children below ih =>
    cases labelled' with
    | @node id' children' below' =>
      rw [unnumbered_node, unnumbered_node] at h
      obtain ⟨-, hlabel, hchildren⟩ := Tree.node.inj h
      have hall : outlineAll theme source (fun id => decide (label id)) children =
          outlineAll theme source (fun id => decide (label' id)) children' := by
        refine outlineAll_congr (forall₂_of_map_eq hchildren fun tree htree other hother hsame => ?_)
        have hroot : tree.label = other.label := by
          rw [← label_unnumbered, hsame, label_unnumbered]
        rw [(below tree htree).label_id, (below' other hother).label_id, hroot]
        exact ⟨rfl, ih tree htree (below' other hother) hsame⟩
      rw [outline.eq_def, outline.eq_def]
      dsimp only
      rw [hlabel]
      cases children with
      | nil =>
        obtain rfl := List.map_eq_nil_iff.mp hchildren.symm
        rfl
      | cons child rest =>
        obtain ⟨child', rest', rfl, -, -⟩ := List.map_eq_cons_iff.mp hchildren.symm
        simp only [hall]

/-- The outline of a node that is entered begins with the line that a walk draws for it. -/
theorem outline_entered {id : Nat} (hshown : decide id = .shown) (label : Label) {children : List Tree}
    (hne : children ≠ []) :
    (node id label children).outline theme source decide =
      (openLine theme label.name :: (outlineAll theme source decide children).1,
        (outlineAll theme source decide children).2) := by
  obtain ⟨child, rest, rfl⟩ := List.exists_cons_of_ne_nil hne
  rw [outline, hshown]
  rfl

end Tree

/-! ### What is taken away does not matter -/

namespace Forest

variable {forest : Forest} {theme : Theme} {source : String} {decide : Nat → Visibility} {root id : Nat}

/-- Among the nodes that are left when a tree is pruned, one that is shown has no children, or one that is not
    hidden. -/
def Headed (forest : Forest) (decide : Nat → Visibility) (root : Nat) : Prop :=
  ∀ x ∈ ((forest.tree root).pruned decide).preorder, decide x = .shown → forest.childList x ≠ [] →
    ∃ child ∈ forest.childList x, decide child ≠ .hidden

/-- Of several trees those are left whose topmost nodes are not hidden. -/
theorem Linked.prunedAll_map (linked : forest.Linked) (nodes : List Nat) :
    Tree.prunedAll decide (nodes.map forest.tree) =
      (nodes.filter fun id => decide id ≠ .hidden).map fun id => (forest.tree id).pruned decide := by
  induction nodes with
  | nil => rfl
  | cons id rest ih =>
    rw [List.map_cons, Tree.prunedAll, linked.tree_id]
    cases hd : decide id with
    | hidden => simp [hd, ih]
    | shown | collapsed => simp [hd, ih]

/-- A pruned tree of a forest is its root with the pruned trees of the children that are not hidden, unless the
    root is collapsed. -/
theorem Linked.pruned_tree (linked : forest.Linked) (decide : Nat → Visibility) (id : Nat) :
    (forest.tree id).pruned decide = .node id (forest.label id)
      (if decide id = .collapsed then []
        else ((forest.childList id).filter fun child => decide child ≠ .hidden).map fun child =>
          (forest.tree child).pruned decide) := by
  rw [linked.tree_eq, Tree.pruned]
  cases hd : decide id with
  | collapsed => simp
  | hidden | shown => simp [linked.prunedAll_map]

/-- Pruning leaves the topmost node. -/
theorem Linked.pruned_id (linked : forest.Linked) (decide : Nat → Visibility) (id : Nat) :
    ((forest.tree id).pruned decide).id = id := by
  rw [linked.pruned_tree, Tree.id]

/-- What is left below a node that is left is left below the root. -/
theorem Headed.child (linked : forest.Linked) (headed : forest.Headed decide root) {child : Nat}
    (hshown : decide root = .shown) (hchild : child ∈ forest.childList root)
    (hne : decide child ≠ .hidden) : forest.Headed decide child := by
  intro x hx
  refine headed x ?_
  rw [linked.pruned_tree, Tree.preorder, Tree.preorderAll_eq_flatMap, if_neg (by simp [hshown])]
  refine List.mem_cons_of_mem _ (List.mem_flatMap.mpr ⟨_, List.mem_map_of_mem ?_, hx⟩)
  simp [hchild, hne]

/-- Hidden siblings do not keep a child from being the last one shown. -/
theorem Linked.all_hidden_filter (linked : forest.Linked) (nodes : List Nat) :
    ((nodes.map forest.tree).all fun tree => decide tree.id = .hidden) =
      ((nodes.filter fun id => decide id ≠ .hidden).map fun id => (forest.tree id).pruned decide).all
        fun tree => decide tree.id = .hidden := by
  rw [List.all_map, List.all_map, List.all_filter]
  congr 1
  funext id
  simp only [Function.comp_apply, linked.tree_id, linked.pruned_id]
  cases decide id <;> rfl

/-- The outlines of trees together are those of the trees that are not hidden. -/
theorem Linked.outlineAll_filter (linked : forest.Linked) {nodes : List Nat}
    (each : ∀ id ∈ nodes, decide id ≠ .hidden →
      (forest.tree id).outline theme source decide =
        ((forest.tree id).pruned decide).outline theme source decide) :
    Tree.outlineAll theme source decide (nodes.map forest.tree) =
      Tree.outlineAll theme source decide ((nodes.filter fun id => decide id ≠ .hidden).map fun id =>
        (forest.tree id).pruned decide) := by
  induction nodes with
  | nil => rfl
  | cons id rest ih =>
    obtain ⟨hfirst, hrest⟩ := List.forall_mem_cons.mp each
    rw [List.map_cons, Tree.outlineAll, ih hrest]
    by_cases hd : decide id = .hidden
    · have hnone : (forest.tree id).outline theme source decide = ([], none) := by
        rw [linked.tree_eq, Tree.outline_hidden hd]
      rw [List.filter_cons_of_neg (by simp [hd]), hnone]
      rfl
    · rw [List.filter_cons_of_pos (by simp [hd]), List.map_cons, Tree.outlineAll, hfirst hd,
        linked.all_hidden_filter]

/-- **Pruning changes no line.** -/
theorem Linked.outline_pruned (linked : forest.Linked) (headed : forest.Headed decide root) :
    (forest.tree root).outline theme source decide =
      ((forest.tree root).pruned decide).outline theme source decide := by
  induction root using linked.childInduction with
  | step root ih =>
    rw [linked.pruned_tree, linked.tree_eq]
    cases hd : decide root with
    | hidden => rw [Tree.outline_hidden hd, Tree.outline_hidden hd]
    | collapsed => rw [Tree.outline_collapsed hd, Tree.outline_collapsed hd]
    | shown =>
      have hall : Tree.outlineAll theme source decide ((forest.childList root).map forest.tree) = _ :=
        linked.outlineAll_filter fun child hchild hne =>
          ih child hchild (headed.child linked hd hchild hne)
      rw [if_neg (by simp)]
      by_cases hleaf : forest.childList root = []
      · rw [hleaf]
        rfl
      · have hmem : root ∈ ((forest.tree root).pruned decide).preorder := by
          rw [linked.pruned_tree, Tree.preorder]
          exact List.mem_cons_self ..
        obtain ⟨child, hchild, hne⟩ := headed root hmem hd hleaf
        have hleft : (forest.childList root).filter (fun id => decide id ≠ .hidden) ≠ [] :=
          List.ne_nil_of_mem (List.mem_filter.mpr ⟨hchild, by simp [hne]⟩)
        rw [Tree.outline_entered hd _ (by simp [hleaf]), Tree.outline_entered hd _ (by simpa using hleft), hall]

/-- The tree of a forest has its labels. -/
theorem Linked.labelled_tree (linked : forest.Linked) (root : Nat) :
    (forest.tree root).Labelled forest.label := by
  induction root using linked.childInduction with
  | step root ih =>
    rw [linked.tree_eq]
    exact .node (List.forall_mem_map.mpr ih)

/-- A pruned tree has the labels of the forest still. -/
theorem Linked.labelled_pruned (linked : forest.Linked) (decide : Nat → Visibility) (root : Nat) :
    ((forest.tree root).pruned decide).Labelled forest.label := by
  induction root using linked.childInduction with
  | step root ih =>
    rw [linked.pruned_tree]
    refine .node ?_
    split
    · exact List.forall_mem_nil _
    · exact List.forall_mem_map.mpr fun child hchild => ih child (List.mem_of_mem_filter hchild)

end Forest

/-! ### Walks whose filter goes by label -/

namespace Stream

variable {forest other : Forest} {root top : Nat}

/-- A walk whose filter goes by label yields the outline for the decisions on the labels. -/
theorem yields_ofLabel (linked : forest.Linked) (hroot : root < forest.size) (decide : Label → Visibility)
    (source : String) (theme : Theme) :
    (start (⟨forest, root⟩ : Place) source theme (Filter.ofLabel decide)).Yields
      (entries ((forest.tree root).outline theme source (forest.byLabel decide))) :=
  (follows_ofLabel forest decide root source theme).yields linked hroot

end Stream

/-- **Hidden is as good as absent, and collapsed as good as childless.** Let a filter go by label, and let
    every node that is shown, and left in the pruned tree of a node, have no children or one that is not
    hidden. Then the pruned tree is that of some grown forest, up to its numbers; a walk of it, whatever its
    numbers, answers all calls as a walk of the whole tree does; and so does a walk of any other tree from
    which the same is left, no matter what is taken away from either. -/
theorem hidden_is_absent {forest : Forest} (grown : forest.Grown) {root : Nat}
    (inForest : forest.contains root = true) (decide : Label → Visibility)
    (headed : forest.Headed (forest.byLabel decide) root) :
    let pruned := (forest.tree root).pruned (forest.byLabel decide)
    let walk := fun forest root source theme =>
      Stream.start (⟨forest, root⟩ : Place) source theme (Filter.ofLabel decide)
    (∃ rest : Forest, rest.Grown ∧ rest.contains 0 = true ∧
        (rest.tree 0).unnumbered = pruned.unnumbered) ∧
      (∀ (rest : Forest) (top : Nat), rest.Grown → rest.contains top = true →
        (rest.tree top).unnumbered = pruned.unnumbered →
        ∀ source theme n,
          (walk rest top source theme).pulls n = (walk forest root source theme).pulls n) ∧
      ∀ (other : Forest) (top : Nat), other.Grown → other.contains top = true →
        other.Headed (other.byLabel decide) top →
        ((other.tree top).pruned (other.byLabel decide)).unnumbered = pruned.unnumbered →
        ∀ source theme n,
          (walk other top source theme).pulls n = (walk forest root source theme).pulls n := by
  intro pruned walk
  have linked := grown.linked
  have labelled := linked.labelled_pruned (forest.byLabel decide) root
  have halike : ∀ {other : Forest} {top : Nat} {source : String} {theme : Theme}, other.Linked →
      other.contains top = true →
      (other.tree top).outline theme source (other.byLabel decide) =
        pruned.outline theme source (forest.byLabel decide) →
      ∀ n, (walk other top source theme).pulls n = (walk forest root source theme).pulls n := by
    intro other top source theme linked' inForest' houtline n
    rw [Stream.yields_ofLabel linked (of_decide_eq_true inForest) decide source theme n,
      Stream.yields_ofLabel linked' (of_decide_eq_true inForest') decide source theme n,
      linked.outline_pruned headed, houtline]
  refine ⟨Forest.exists_tree pruned, ?_, ?_⟩
  · intro rest top grown' inForest' hsame source theme
    exact halike grown'.linked inForest'
      (Tree.outline_unnumbered decide (grown'.linked.labelled_tree top) labelled hsame)
  · intro other top grown' inForest' headed' hsame source theme
    refine halike grown'.linked inForest' ?_
    rw [grown'.linked.outline_pruned headed']
    exact Tree.outline_unnumbered decide (grown'.linked.labelled_pruned _ top) labelled hsame

/-- Without "Right", which is hidden, and without what is below "Left", which is collapsed. -/
theorem pruned_sapling_is_rendered_alike :
    let decide := fun label : Label =>
      NameRules.decide { hidden := ["Right"], collapsed := ["Left"] } label.name
    let headed := Forest.sapling.Headed (Forest.sapling.byLabel decide) 0
    Forest.sapling.Grown ∧ Forest.sapling.contains 0 = true ∧ headed ∧
      ∃ rest : Forest, rest.Grown ∧
        (rest.tree 0).unnumbered =
          ((Forest.sapling.tree 0).pruned (Forest.sapling.byLabel decide)).unnumbered ∧
        ∀ n, (Stream.start (⟨rest, 0⟩ : Place) "xy" .terminal (Filter.ofLabel decide)).pulls n =
          (Stream.start (⟨.sapling, 0⟩ : Place) "xy" .terminal (Filter.ofLabel decide)).pulls n := by
  intro decide headed
  have inForest : Forest.sapling.contains 0 = true := rfl
  have hheaded : headed := by
    show ∀ x ∈ _, _
    decide +kernel
  obtain ⟨⟨rest, grown, hcontains, hsame⟩, hrest, -⟩ :=
    hidden_is_absent Forest.grown_sapling inForest decide hheaded
  exact ⟨Forest.grown_sapling, inForest, hheaded, rest, grown, hsame,
    hrest rest 0 grown hcontains hsame "xy" .terminal⟩

example :
    ((Forest.sapling.tree 0).pruned (Forest.sapling.byLabel fun label =>
      NameRules.decide { hidden := ["Right"], collapsed := ["Left"] } label.name)).preorder = [0, 1] := by
  decide +kernel

end BoxTree
