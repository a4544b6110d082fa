import BoxTree.Proofs.TreeOfForest
import BoxTree.Visibility

namespace BoxTree

/-!
# The nodes that decisions lead to

Given what becomes of each node, one can tell on which nodes a walk has to decide: when it is over, and
when it stands on a node.

* `untilShown` — nodes in turn, up to the first that is not hidden.
* `Forest.Reached` — the nodes of a tree whose ancestors in it are all shown.
* `Forest.earlier` — the siblings before a node.
* `Forest.Beside` — a node, the trees before it and the siblings behind it, as far as they are decided to
  draw the node.
* `Forest.Around` — the same for a node and its ancestors up to a start.
* `Forest.Linked.reached_iff`, `Forest.around_iff` — what is reached from a node in terms of its children, and
  what is around it in terms of its ancestors.
-/

section UntilShown

variable {α : Type} {decide : α → Visibility}

/-- The nodes up to and including the first one that is not hidden. -/
def untilShown (decide : α → Visibility) : List α → List α
  | [] => []
  | a :: rest => if decide a = .hidden then a :: untilShown decide rest else [a]

/-- Behind a hidden node the search goes on. -/
theorem untilShown_cons_hidden {a : α} (h : decide a = .hidden) (rest : List α) :
    untilShown decide (a :: rest) = a :: untilShown decide rest := if_pos h

/-- The search ends with a node that is not hidden. -/
theorem untilShown_cons_of_ne {a : α} (h : decide a ≠ .hidden) (rest : List α) :
    untilShown decide (a :: rest) = [a] := if_neg h

/-- The search looks at the nodes in order, and leaves none out. -/
theorem untilShown_isPrefix (decide : α → Visibility) (nodes : List α) :
    untilShown decide nodes <+: nodes := by
  induction nodes with
  | nil => exact List.prefix_rfl
  | cons a rest ih =>
    unfold untilShown
    split
    · exact List.cons_prefix_cons.mpr ⟨rfl, ih⟩
    · exact List.cons_prefix_cons.mpr ⟨rfl, List.nil_prefix⟩

/-- As many nodes as are up to the first that is not hidden are these. -/
theorem take_length_untilShown (decide : α → Visibility) (nodes : List α) :
    nodes.take (untilShown decide nodes).length = untilShown decide nodes :=
  (List.prefix_iff_eq_take.mp (untilShown_isPrefix decide nodes)).symm

end UntilShown

namespace Forest

variable {forest : Forest} {decide : Nat → Visibility} {id above child top x n : Nat}

/-! ### Siblings before a node -/

/-- The siblings before a node. -/
def earlier (forest : Forest) (id : Nat) : List Nat :=
  match forest.parent? id with
  | some above => (forest.childList above).takeWhile (· ≠ id)
  | none => []

/-- Where a node stands among the children of its parent, the others are before and behind it. -/
theorem Linked.beside (linked : forest.Linked) {before behind : List Nat}
    (h : forest.childList above = before ++ id :: behind) :
    forest.parent? id = some above ∧ forest.earlier id = before ∧ forest.later id = behind := by
  have hget : (forest.childList above)[before.length]? = some id := by
    rw [h, List.getElem?_append_right (le_refl _), Nat.sub_self, List.getElem?_cons_zero]
  obtain ⟨hparent, hlater⟩ := linked.later_of_getElem? hget
  -- No child is there twice, so none before it is the node itself.
  have hne : ∀ other ∈ before, decide (other ≠ id) = true := by
    intro other hother
    have hnodup := linked.nodup_childList above
    rw [h, List.nodup_append] at hnodup
    exact decide_eq_true (hnodup.2.2 other hother id (List.mem_cons_self ..))
  refine ⟨hparent, ?_, ?_⟩
  · unfold earlier
    rw [hparent]
    dsimp only
    rw [h, List.takeWhile_append_of_pos hne, List.takeWhile_cons_of_neg (by simp), List.append_nil]
  · rw [hlater, h, ← List.drop_drop, List.drop_left, List.drop_one, List.tail_cons]

/-- The children of a node are one of them, those before it and those behind it. -/
theorem Linked.childList_eq (linked : forest.Linked) (hparent : forest.parent? id = some above) :
    forest.childList above = forest.earlier id ++ id :: forest.later id := by
  obtain ⟨before, behind, h⟩ := List.append_of_mem (linked.mem_childList.mpr hparent)
  obtain ⟨-, rfl, rfl⟩ := linked.beside h
  exact h

/-- Nothing is before the first child. -/
theorem Linked.earlier_first (linked : forest.Linked) {rest : List Nat}
    (h : forest.childList id = child :: rest) : forest.earlier child = [] := by
  rw [← List.nil_append (child :: rest)] at h
  exact (linked.beside h).2.1

/-- A node is the last one before its next sibling. -/
theorem Linked.earlier_next (linked : forest.Linked) {next : Nat} {rest : List Nat}
    (hparent : forest.parent? id = some above) (h : forest.later id = next :: rest) :
    forest.earlier next = forest.earlier id ++ [id] := by
  have hchildren : forest.childList above = (forest.earlier id ++ [id]) ++ next :: rest := by
    rw [linked.childList_eq hparent, h, List.append_assoc, List.singleton_append]
  exact (linked.beside hchildren).2.1

/-! ### Nodes that are reached -/

/-- The nodes of a tree whose ancestors in the tree are all shown. -/
inductive Reached (forest : Forest) (decide : Nat → Visibility) (top : Nat) : Nat → Prop
  | top : Reached forest decide top top
  | child {above id : Nat} (reached : Reached forest decide top above) (shown : decide above = .shown)
      (parent : forest.parent? id = some above) : Reached forest decide top id

/-- Below a node that is not shown, or has no children, no other node is reached. -/
theorem Linked.reached_closed (linked : forest.Linked)
    (h : decide top = .shown → forest.childList top = []) :
    forest.Reached decide top x ↔ x = top := by
  constructor
  · intro reached
    induction reached with
    | top => rfl
    | @child above id _ shown parent ih =>
      -- The tree would have a child of its root.
      subst ih
      have hchild := linked.mem_childList.mpr parent
      rw [h shown] at hchild
      cases hchild
  · rintro rfl
    exact .top

/-- From a node that is shown, what is reached is the node and what is reached from its children. -/
theorem Linked.reached_iff (linked : forest.Linked) (shown : decide top = .shown) :
    forest.Reached decide top x ↔
      x = top ∨ ∃ child ∈ forest.childList top, forest.Reached decide child x := by
  constructor
  · intro reached
    induction reached with
    | top => exact .inl rfl
    | @child above id _ hshown parent ih =>
      obtain rfl | ⟨child, hchild, hreached⟩ := ih
      · exact .inr ⟨id, linked.mem_childList.mpr parent, .top⟩
      · exact .inr ⟨child, hchild, .child hreached hshown parent⟩
  · rintro (rfl | ⟨child, hchild, hreached⟩)
    · exact .top
    · induction hreached with
      | top => exact .child .top shown (linked.mem_childList.mp hchild)
      | child _ hshown parent ih => exact .child ih hshown parent

/-! ### What is around a node -/

/-- What is decided next to a node to draw it: the node, what is reached from the siblings before it, and
    the siblings behind it up to the first that is not hidden. -/
def Beside (forest : Forest) (decide : Nat → Visibility) (id x : Nat) : Prop :=
  x = id ∨ (∃ sibling ∈ forest.earlier id, forest.Reached decide sibling x) ∨
    x ∈ untilShown decide (forest.later id)

/-- What is decided to draw a node so deep below a start: the start, and what is next to the node and to
    its ancestors below the start. -/
def Around (forest : Forest) (decide : Nat → Visibility) : Nat → Nat → Nat → Prop
  | 0, id, x => x = id
  | depth + 1, id, x =>
    forest.Beside decide id x ∨
      ∃ above, forest.parent? id = some above ∧ Around forest decide depth above x

/-- What is around a node is next to one of its ancestors below the start. -/
theorem around_iff {depth root : Nat} (hdepth : forest.ancestor? depth id = some root) :
    forest.Around decide depth id x ↔
      x = root ∨ ∃ i < depth, ∃ ancestor, forest.ancestor? i id = some ancestor ∧
        forest.Beside decide ancestor x := by
  induction depth generalizing id with
  | zero =>
    obtain rfl := Option.some.inj hdepth
    simp [Around]
  | succ depth ih =>
    obtain ⟨above, hparent, habove⟩ := Option.bind_eq_some_iff.mp hdepth
    have hup : ∀ i, forest.ancestor? (i + 1) id = forest.ancestor? i above := fun i =>
      ancestor?_succ hparent
    rw [Around, hparent]
    simp only [Option.some.injEq, exists_eq_left', ih habove]
    constructor
    · rintro (hbeside | rfl | ⟨i, hi, ancestor, hancestor, hbeside⟩)
      · exact .inr ⟨0, Nat.succ_pos depth, id, rfl, hbeside⟩
      · exact .inl rfl
      · exact .inr ⟨i + 1, Nat.succ_lt_succ hi, ancestor, (hup i).trans hancestor, hbeside⟩
    · rintro (rfl | ⟨_ | i, hi, ancestor, hancestor, hbeside⟩)
      · exact .inr (.inl rfl)
      · obtain rfl := Option.some.inj hancestor
        exact .inl hbeside
      · exact .inr (.inr ⟨i, Nat.lt_of_succ_lt_succ hi, ancestor, (hup i).symm.trans hancestor, hbeside⟩)

end Forest

end BoxTree
