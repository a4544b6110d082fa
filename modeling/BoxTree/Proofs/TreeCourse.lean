import BoxTree.Proofs.DecidedNodes

namespace BoxTree

/-!
# The course of a walk

A walk draws the lines of nodes, and climbs back to the nodes whose children it is done with. What it
draws before which climb follows by recursion on the tree.

* `Mark` — a line of a node, or a climb back to it.
* `Tree.climbs` — the nodes that a walk climbs back to, in order.
* `Tree.course` — lines and climbs in order.
* `Tree.drawn_course`, `Tree.climbed_course` — the lines of a course and its climbs.
* `Forest.Linked.course_split`, `Forest.Linked.owners_around_climb` — the last line before a climb to a
  node is of the tree of the node, and none behind it is.
-/

/-- What happens in a walk. -/
inductive Mark where
  /-- A line of the node comes out, or the error at it. -/
  | drawn (id : Nat)
  /-- The children of the node are done with, and the walk climbs back to the node. -/
  | climbed (id : Nat)
  deriving DecidableEq

namespace Mark

/-- The node of a line. -/
def drawn? : Mark → Option Nat
  | drawn id => some id
  | climbed _ => none

/-- The node that is climbed to. -/
def climbed? : Mark → Option Nat
  | drawn _ => none
  | climbed id => some id

/-- The node in question. -/
def id : Mark → Nat
  | drawn id | climbed id => id

/-- A line is drawn for the node of its mark. -/
theorem id_eq_of_drawn? {mark : Mark} {x : Nat} (h : mark.drawn? = some x) : mark.id = x := by
  cases mark with
  | drawn id => exact Option.some.inj h
  | climbed id => cases h

/-- A climb is marked by the node that is climbed to. -/
theorem eq_of_climbed? {mark : Mark} {x : Nat} (h : mark.climbed? = some x) : mark = climbed x := by
  cases mark with
  | drawn id => cases h
  | climbed id => exact congrArg climbed (Option.some.inj h)

/-- Where a line is among the marks there is a last one. -/
theorem exists_last_drawn {marks : List Mark} {x : Nat} {nodes : List Nat}
    (inside : ∀ mark ∈ marks, mark.id ∈ nodes) (hx : drawn x ∈ marks) :
    ∃ y ∈ nodes, (marks.filterMap drawn?).getLast? = some y := by
  have hne : marks.filterMap drawn? ≠ [] :=
    List.ne_nil_of_mem (List.mem_filterMap.mpr ⟨drawn x, hx, rfl⟩)
  obtain ⟨y, hlast⟩ := Option.isSome_iff_exists.mp (List.getLast?_isSome.mpr hne)
  obtain ⟨mark, hmark, hdrawn⟩ := List.mem_filterMap.mp (List.mem_of_getLast? hlast)
  exact ⟨y, id_eq_of_drawn? hdrawn ▸ inside mark hmark, hlast⟩

theorem filterMap_drawn?_map (nodes : List Nat) : (nodes.map drawn).filterMap drawn? = nodes := by
  rw [List.filterMap_map]
  exact List.filterMap_some

theorem filterMap_climbed?_map (nodes : List Nat) : (nodes.map drawn).filterMap climbed? = [] := by
  rw [List.filterMap_map]
  exact List.filterMap_eq_nil_iff.mpr fun _ _ => rfl

end Mark

/-- A box has a line for each line inside. -/
theorem length_branched (tree : Color) (isLast : Bool) (lines : List Line) :
    (branched tree isLast lines).length = lines.length := by
  cases lines with
  | nil => rfl
  | cons first rest => simp [branched]

/-! ### By recursion on the tree -/

namespace Tree

variable (theme : Theme) (source : String) (decide : Nat → Visibility)

mutual

/-- The nodes whose children are walked, each behind those below it. -/
def climbs : Tree → List Nat
  | node id _ children =>
    match decide id, children with
    | .shown, child :: rest => climbsAll (child :: rest) ++ [id]
    | _, _ => []

/-- The nodes of several trees whose children are walked. -/
def climbsAll : List Tree → List Nat
  | [] => []
  | tree :: rest => climbs tree ++ climbsAll rest

end

mutual

/-- The lines of a tree and the climbs in it, in order. Behind an error comes what would come without
    it. -/
def course : Tree → List Mark
  | node id label children =>
    match decide id, children with
    | .shown, child :: rest => .drawn id :: (courseAll (child :: rest) ++ [.climbed id])
    | _, _ => (owners theme source decide (node id label children)).map .drawn

/-- The lines and climbs of several trees. -/
def courseAll : List Tree → List Mark
  | [] => []
  | tree :: rest => course tree ++ courseAll rest

end

variable {theme : Theme} {source : String} {decide : Nat → Visibility}

theorem ownersAll_eq_flatMap (trees : List Tree) :
    ownersAll theme source decide trees = trees.flatMap (owners theme source decide) := by
  induction trees with
  | nil => rfl
  | cons tree rest ih => rw [ownersAll, List.flatMap_cons, ih]

theorem climbsAll_eq_flatMap (trees : List Tree) :
    climbsAll decide trees = trees.flatMap (climbs decide) := by
  induction trees with
  | nil => rfl
  | cons tree rest ih => rw [climbsAll, List.flatMap_cons, ih]

theorem courseAll_eq_flatMap (trees : List Tree) :
    courseAll theme source decide trees = trees.flatMap (course theme source decide) := by
  induction trees with
  | nil => rfl
  | cons tree rest ih => rw [courseAll, List.flatMap_cons, ih]

/-- A node whose children are walked is drawn before them and climbed to behind them. -/
theorem course_entered {id : Nat} (hshown : decide id = .shown) (label : Label) {children : List Tree}
    (hne : children ≠ []) :
    (node id label children).course theme source decide =
      .drawn id :: (children.flatMap (course theme source decide) ++ [.climbed id]) := by
  obtain ⟨child, rest, rfl⟩ := List.exists_cons_of_ne_nil hne
  rw [course.eq_def]
  simp only [hshown, courseAll_eq_flatMap]

/-- A node whose children are not walked is drawn. -/
theorem course_unentered {id : Nat} {children : List Tree} (h : decide id = .shown → children = [])
    (label : Label) :
    (node id label children).course theme source decide =
      (owners theme source decide (node id label children)).map .drawn := by
  rw [course.eq_def]
  dsimp only
  split
  · next hshown => cases h hshown
  · rfl

/-- A node that is entered is climbed back to behind all climbs inside it. -/
theorem climbs_entered {id : Nat} (hshown : decide id = .shown) (label : Label) {children : List Tree}
    (hne : children ≠ []) :
    (node id label children).climbs decide = children.flatMap (climbs decide) ++ [id] := by
  obtain ⟨child, rest, rfl⟩ := List.exists_cons_of_ne_nil hne
  rw [climbs.eq_def]
  simp only [hshown, climbsAll_eq_flatMap]

/-- A node that is not entered is not climbed back to. -/
theorem climbs_unentered {id : Nat} {children : List Tree} (h : decide id = .shown → children = [])
    (label : Label) : (node id label children).climbs decide = [] := by
  rw [climbs.eq_def]
  dsimp only
  split
  · next hshown => cases h hshown
  · rfl

/-- The first line of a node that is entered is its own. -/
theorem owners_entered {id : Nat} (hshown : decide id = .shown) (label : Label) {children : List Tree}
    (hne : children ≠ []) :
    (node id label children).owners theme source decide =
      id :: children.flatMap (owners theme source decide) := by
  obtain ⟨child, rest, rfl⟩ := List.exists_cons_of_ne_nil hne
  rw [owners.eq_def]
  simp only [hshown, ownersAll_eq_flatMap]

/-- Where the children of a node are not walked, all lines are of the node. -/
theorem eq_of_mem_owners {id x : Nat} {children : List Tree} (h : decide id = .shown → children = [])
    {label : Label} (hx : x ∈ (node id label children).owners theme source decide) : x = id := by
  rw [owners.eq_def] at hx
  dsimp only at hx
  split at hx
  · cases hx
  · exact List.mem_singleton.mp hx
  · next hshown =>
    obtain rfl := h hshown
    dsimp only at hx
    split at hx
    · exact (List.mem_map.mp hx).choose_spec.2.symm
    · exact List.mem_singleton.mp hx

/-- A climb is in the course of a node whose children are walked. -/
theorem entered_of_course {id x : Nat} {label : Label} {children : List Tree} {before behind : List Mark}
    (h : (node id label children).course theme source decide = before ++ .climbed x :: behind) :
    decide id = .shown ∧ children ≠ [] := by
  refine Classical.not_imp.mp fun hleaf => ?_
  have hmem : Mark.climbed x ∈ before ++ .climbed x :: behind :=
    List.mem_append_right before (List.mem_cons_self ..)
  rw [← h, course_unentered hleaf] at hmem
  obtain ⟨_, -, hmark⟩ := List.mem_map.mp hmem
  cases hmark

/-- **The lines of a course** are those of the outline. -/
theorem drawn_course (tree : Tree) :
    (tree.course theme source decide).filterMap Mark.drawn? = tree.owners theme source decide := by
  induction tree using Tree.induction with
  | node id label children ih =>
    by_cases h : decide id = .shown → children = []
    · rw [course_unentered h, Mark.filterMap_drawn?_map]
    · obtain ⟨hshown, hne⟩ := Classical.not_imp.mp h
      rw [course_entered hshown label hne, owners_entered hshown label hne]
      simp only [List.filterMap_cons, Mark.drawn?, List.filterMap_append, List.filterMap_flatMap,
        List.filterMap_nil, List.append_nil]
      rw [List.flatMap_congr ih]

/-- **The climbs of a course** are to the nodes whose children are walked. -/
theorem climbed_course (tree : Tree) :
    (tree.course theme source decide).filterMap Mark.climbed? = tree.climbs decide := by
  induction tree using Tree.induction with
  | node id label children ih =>
    by_cases h : decide id = .shown → children = []
    · rw [course_unentered h, climbs_unentered h, Mark.filterMap_climbed?_map]
    · obtain ⟨hshown, hne⟩ := Classical.not_imp.mp h
      rw [course_entered hshown label hne, climbs_entered hshown label hne]
      simp only [List.filterMap_cons, Mark.climbed?, List.filterMap_append, List.filterMap_flatMap,
        List.filterMap_nil]
      rw [List.flatMap_congr ih]

/-- The course around one of the climbs. -/
theorem exists_course_split (theme : Theme) (source : String) {tree : Tree} {n x : Nat}
    (h : (tree.climbs decide)[n]? = some x) :
    ∃ before behind, tree.course theme source decide = before ++ .climbed x :: behind ∧
      (before.filterMap Mark.climbed?).length = n := by
  obtain ⟨hn, hx⟩ := List.getElem?_eq_some_iff.mp h
  have hsplit : (tree.course theme source decide).filterMap Mark.climbed? =
      (tree.climbs decide).take n ++ x :: (tree.climbs decide).drop (n + 1) := by
    rw [climbed_course, ← hx, List.getElem_cons_drop, List.take_append_drop]
  obtain ⟨before, rest, hcourse, hbefore, hrest⟩ := List.filterMap_eq_append_iff.mp hsplit
  obtain ⟨between, mark, behind, rfl, hnone, hmark, -⟩ := List.filterMap_eq_cons_iff.mp hrest
  obtain rfl : mark = .climbed x := Mark.eq_of_climbed? hmark
  refine ⟨before ++ between, behind, by rw [hcourse, List.append_assoc], ?_⟩
  rw [List.filterMap_append, hbefore, List.filterMap_eq_nil_iff.mpr hnone, List.append_nil,
    List.length_take, min_eq_left hn.le]

/-- A course stays in its tree. -/
theorem id_mem_preorder {tree : Tree} {mark : Mark} (h : mark ∈ tree.course theme source decide) :
    mark.id ∈ tree.preorder := by
  induction tree using Tree.induction generalizing mark with
  | node id label children ih =>
    rw [preorder, preorderAll_eq_flatMap, List.mem_cons]
    by_cases hleaf : decide id = .shown → children = []
    · rw [course_unentered hleaf] at h
      obtain ⟨x, hx, rfl⟩ := List.mem_map.mp h
      exact .inl (eq_of_mem_owners hleaf hx)
    · obtain ⟨hshown, hne⟩ := Classical.not_imp.mp hleaf
      rw [course_entered hshown label hne, List.mem_cons, List.mem_append, List.mem_singleton] at h
      obtain rfl | h | rfl := h
      · exact .inl rfl
      · obtain ⟨tree, htree, hmark⟩ := List.mem_flatMap.mp h
        exact .inr (List.mem_flatMap.mpr ⟨tree, htree, ih tree htree hmark⟩)
      · exact .inl rfl

/-- The lines of trees without an error are as many as those of each of them. -/
theorem length_ownersAll {trees : List Tree}
    (each : ∀ tree ∈ trees, (tree.outline theme source decide).2 = none →
      (tree.owners theme source decide).length = (tree.outline theme source decide).1.length)
    (h : (outlineAll theme source decide trees).2 = none) :
    (ownersAll theme source decide trees).length = (outlineAll theme source decide trees).1.length := by
  induction trees with
  | nil => rfl
  | cons tree rest ih =>
    obtain ⟨hfirst, hrest⟩ := List.forall_mem_cons.mp each
    rw [outlineAll] at h ⊢
    rw [ownersAll, List.length_append]
    rcases houtline : tree.outline theme source decide with ⟨lines, _ | error⟩ <;>
      rw [houtline] at h hfirst
    · dsimp only at h ⊢
      rw [List.length_append, length_branched, hfirst rfl, ih hrest h]
    · cases h

/-- **A walk without an error draws as many lines as there are owners.** -/
theorem length_owners {tree : Tree} (h : (tree.outline theme source decide).2 = none) :
    (tree.owners theme source decide).length = (tree.outline theme source decide).1.length := by
  induction tree using Tree.induction with
  | node id label children ih =>
    cases hd : decide id with
    | hidden => simp [owners.eq_def, outline.eq_def, hd]
    | collapsed => simp [owners.eq_def, outline.eq_def, hd]
    | shown =>
      cases children with
      | nil =>
        cases hslice : Text.slice source label.start label.stop with
        | ok text => simp [owners, outline, hd, hslice]
        | error error => simp [outline, hd, hslice] at h
      | cons child rest =>
        rw [outline, hd] at h ⊢
        rw [owners, hd]
        exact congrArg (· + 1) (length_ownersAll ih h)

end Tree

/-! ### In a forest -/

/-- A member of lists put together is a member of one of them. -/
theorem exists_append_of_flatMap_eq {α β : Type} {f : α → List β} {l : List α} {before behind : List β}
    {b : β} (h : l.flatMap f = before ++ b :: behind) :
    ∃ earlier a later inBefore inBehind, l = earlier ++ a :: later ∧
      f a = inBefore ++ b :: inBehind ∧ before = earlier.flatMap f ++ inBefore ∧
      behind = inBehind ++ later.flatMap f := by
  induction l generalizing before with
  | nil => simp at h
  | cons a rest ih =>
    rw [List.flatMap_cons] at h
    obtain ⟨more, hbefore, hrest⟩ | ⟨more, hfa, hrest⟩ := List.append_eq_append_iff.mp h
    · obtain ⟨earlier, a', later, inBefore, inBehind, rfl, hfa, rfl, rfl⟩ := ih hrest
      exact ⟨a :: earlier, a', later, inBefore, inBehind, rfl, hfa, by simp [hbefore], rfl⟩
    · cases more with
      | nil =>
        have hbehind : rest.flatMap f = [] ++ b :: behind := hrest.symm
        obtain ⟨earlier, a', later, inBefore, inBehind, rfl, hfa', hnil, rfl⟩ := ih hbehind
        refine ⟨a :: earlier, a', later, inBefore, inBehind, rfl, hfa', ?_, rfl⟩
        rw [List.flatMap_cons, hfa, List.append_nil, List.append_assoc, ← hnil, List.append_nil]
      | cons b' more =>
        obtain ⟨rfl, rfl⟩ := List.cons_eq_cons.mp hrest
        exact ⟨[], a, rest, before, more, rfl, hfa, rfl, rfl⟩

namespace Forest

variable {forest : Forest} {theme : Theme} {source : String} {decide : Nat → Visibility}
  {root x : Nat} {before behind : List Mark}

/-- What is below a child is not below its later siblings. -/
theorem Linked.not_mem_preorder_of_sibling (linked : forest.Linked) {earlier later : List Nat}
    {child sibling y : Nat} (hchildren : forest.childList root = earlier ++ child :: later)
    (hsibling : sibling ∈ later) (hx : x ∈ (forest.tree child).preorder)
    (hy : y ∈ (forest.tree sibling).preorder) : y ∉ (forest.tree x).preorder := by
  intro hmem
  have hchild : child ∈ forest.childList root := by simp [hchildren]
  have hother : sibling ∈ forest.childList root := by simp [hchildren, hsibling]
  obtain ⟨n, hn⟩ := linked.mem_preorder_tree.mp hx
  obtain ⟨m, hm⟩ := linked.mem_preorder_tree.mp hmem
  obtain ⟨k, hk⟩ := linked.mem_preorder_tree.mp hy
  have hclimb : forest.ancestor? (m + n) y = some child := (ancestor?_add hm n).trans hn
  obtain rfl := linked.sibling_eq (linked.mem_childList.mp hchild) (linked.mem_childList.mp hother)
    hclimb hk
  -- A child would be there twice.
  have hnodup := linked.nodup_childList root
  rw [hchildren] at hnodup
  exact (List.nodup_cons.mp (List.nodup_append.mp hnodup).2.1).1 hsibling

/-- **A climb to a node is behind all lines of its tree.** The line that came last is one of them, and
    none comes later. -/
theorem Linked.course_split (linked : forest.Linked)
    (h : (forest.tree root).course theme source decide = before ++ .climbed x :: behind) :
    x ∈ (forest.tree root).preorder ∧ forest.childList x ≠ [] ∧
      (∃ y ∈ (forest.tree x).preorder, (before.filterMap Mark.drawn?).getLast? = some y) ∧
      ∀ y ∈ behind.filterMap Mark.drawn?, y ∉ (forest.tree x).preorder := by
  induction root using linked.childInduction generalizing before behind with
  | step root ih =>
    have hstays : ∀ mark ∈ before ++ .climbed x :: behind, mark.id ∈ (forest.tree root).preorder :=
      fun mark hmark => Tree.id_mem_preorder (h ▸ hmark)
    refine ⟨hstays (.climbed x) (by simp), ?_⟩
    rw [linked.tree_eq root] at h
    obtain ⟨hshown, hne⟩ := Tree.entered_of_course h
    rw [Tree.course_entered hshown _ hne, List.flatMap_map] at h
    obtain _ | ⟨first, earlier⟩ := before
    · cases h
    rw [List.cons_append] at h
    obtain ⟨rfl, hrest⟩ := List.cons_eq_cons.mp h
    obtain rfl | ⟨later, last, rfl⟩ := List.eq_nil_or_concat behind
    · -- The climb at the end leads to the root, and all lines before are of its tree.
      obtain ⟨-, hlast⟩ := List.append_inj' hrest rfl
      obtain rfl : root = x := by simpa using hlast
      refine ⟨fun hnil => hne (by rw [hnil]; rfl), ?_, by simp⟩
      exact Mark.exists_last_drawn (fun mark hmark => hstays mark (List.mem_append_left _ hmark))
        (List.mem_cons_self ..)
    · -- Any other climb is in the course of a child.
      rw [List.concat_eq_append, ← List.cons_append, ← List.append_assoc] at hrest
      obtain ⟨hinside, hend⟩ := List.append_inj' hrest rfl
      obtain rfl : .climbed root = last := by simpa using hend
      obtain ⟨before', child, behind', inBefore, inBehind, hchildren, hcourse, rfl, rfl⟩ :=
        exists_append_of_flatMap_eq hinside
      obtain ⟨hx, hentered, ⟨y, hy, hlast⟩, hnone⟩ := ih child (by simp [hchildren]) hcourse
      refine ⟨hentered, ⟨y, hy, ?_⟩, fun z hz => ?_⟩
      · rw [← List.cons_append, List.filterMap_append, List.getLast?_append, hlast, Option.some_or]
      · obtain ⟨mark, hmark, hdrawn⟩ := List.mem_filterMap.mp hz
        rw [List.concat_eq_append, List.mem_append, List.mem_append, List.mem_singleton] at hmark
        obtain (hmark | hmark) | rfl := hmark
        · exact hnone z (List.mem_filterMap.mpr ⟨mark, hmark, hdrawn⟩)
        · obtain ⟨sibling, hsibling, hinside⟩ := List.mem_flatMap.mp hmark
          have hid := Tree.id_mem_preorder hinside
          rw [Mark.id_eq_of_drawn? hdrawn] at hid
          exact linked.not_mem_preorder_of_sibling hchildren hsibling hx hid
        · cases hdrawn

/-- Among the owners of all lines, those of the lines before a climb to a node end with one in the tree of the
    node, and no later one is in it. -/
theorem Linked.owners_around_climb (linked : forest.Linked)
    (h : (forest.tree root).course theme source decide = before ++ .climbed x :: behind) :
    let owners := (forest.tree root).owners theme source decide
    let count := (before.filterMap Mark.drawn?).length
    0 < count ∧ count ≤ owners.length ∧
      (∃ y ∈ (forest.tree x).preorder, owners[count - 1]? = some y) ∧
      ∀ i ≥ count, ∀ y, owners[i]? = some y → y ∉ (forest.tree x).preorder := by
  intro owners count
  obtain ⟨-, -, ⟨y, hy, hlast⟩, hnone⟩ := linked.course_split h
  have howners : owners = before.filterMap Mark.drawn? ++ behind.filterMap Mark.drawn? := by
    show Tree.owners theme source decide (forest.tree root) = _
    rw [← Tree.drawn_course, h, List.filterMap_append]
    rfl
  have hpos : 0 < count := List.length_pos_of_mem (List.mem_of_getLast? hlast)
  refine ⟨hpos, ?_, ⟨y, hy, ?_⟩, fun i hi z hz => ?_⟩
  · rw [howners, List.length_append]
    exact Nat.le_add_right _ _
  · rw [howners, List.getElem?_append_left (Nat.sub_one_lt hpos.ne'), ← hlast, List.getLast?_eq_getElem?]
  · rw [howners, List.getElem?_append_right hi] at hz
    exact hnone z (List.mem_of_getElem? hz)

end Forest

end BoxTree
