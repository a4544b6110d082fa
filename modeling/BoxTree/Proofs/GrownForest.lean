import BoxTree.Syntax.Cursor
import BoxTree.Syntax.Tree
import Mathlib

namespace BoxTree

/-!
# Grown forests

What the links of a forest have in common once it has grown by adding nodes, and what a place of
such a forest can be moved to.

* `Forest.childList`, `Forest.later` — the children of a node, and its siblings behind it.
* `Forest.Linked` — parents and children name each other, parents come before their children,
  and every node knows its place among its siblings.
* `Forest.Grown.linked` — every grown forest is linked.
* `Place.nextSibling?_eq`, `Place.firstChild?_eq`, `Place.following_eq` — the moves of a place, read off
  the two lists.
-/

namespace Forest

variable {forest after : Forest} {label : Label} {parent : Option Nat} {id above i : Nat}

/-- The numbers of the children of a node; an unknown number has none. -/
def childList (forest : Forest) (id : Nat) : List Nat := ((forest.children? id).getD #[]).toList

/-- The siblings behind a node. A root has none, even next to other roots. -/
def later (forest : Forest) (id : Nat) : List Nat :=
  match forest.parent? id with
  | some above => (forest.childList above).drop ((⟨forest, id⟩ : Place).position + 1)
  | none => []

/-- The links of a forest fit together. -/
structure Linked (forest : Forest) : Prop where
  id_eq : ∀ {id node}, forest.node? id = some node → node.id = id
  parent_lt : ∀ {id above}, forest.parent? id = some above → above < id
  mem_childList : ∀ {id above}, id ∈ forest.childList above ↔ forest.parent? id = some above
  sorted : ∀ id, (forest.childList id).Pairwise (· < ·)
  position : ∀ {id above}, forest.parent? id = some above →
    (forest.childList above)[(⟨forest, id⟩ : Place).position]? = some id

/-! ### One more node -/

/-- A node can be added as a root or below a node that is there; it takes the next number. -/
theorem id_of_add (added : forest.add label parent = .ok (after, id)) :
    id = forest.size ∧ after.size = forest.size + 1 ∧ ∀ above, parent = some above → above < forest.size := by
  unfold add at added
  cases parent with
  | none =>
    obtain ⟨rfl, rfl⟩ := Prod.mk.inj (Except.ok.inj added)
    exact ⟨rfl, by simp [size], by simp⟩
  | some above =>
    dsimp only at added
    cases hnode : forest.node? above with
    | none => simp [hnode] at added
    | some node =>
      rw [hnode] at added
      obtain ⟨rfl, rfl⟩ := Prod.mk.inj (Except.ok.inj added)
      refine ⟨rfl, by simp [size], ?_⟩
      intro above' habove'
      obtain rfl := Option.some.inj habove'
      exact (Array.getElem?_eq_some_iff.mp hnode).1

/-- The new node stands at the end; its parent gets one more child; all else stays. -/
theorem node?_add (added : forest.add label parent = .ok (after, id)) (i : Nat) :
    after.node? i =
      if i = forest.size then
        some { id, label, parent
               position := (parent.map fun above => (forest.childList above).length).getD 0 }
      else if parent = some i then
        (forest.node? i).map fun node => { node with children := node.children.push id }
      else forest.node? i := by
  obtain ⟨rfl, -, hlt⟩ := id_of_add added
  unfold add at added
  cases parent with
  | none =>
    obtain ⟨rfl, -⟩ := Prod.mk.inj (Except.ok.inj added)
    simp [node?, Array.getElem?_push, size]
  | some above =>
    dsimp only at added
    cases hnode : forest.node? above with
    | none => simp [hnode] at added
    | some node =>
      rw [hnode] at added
      obtain ⟨rfl, -⟩ := Prod.mk.inj (Except.ok.inj added)
      -- The parent is the only old node that changes: it gets one more child.
      have habove : above < forest.nodes.size := hlt above rfl
      have hpos : (forest.childList above).length = node.children.size := by
        simp [childList, children?, hnode]
      simp only [node?, Array.getElem?_push, Array.size_setIfInBounds, Array.getElem?_setIfInBounds,
        size, Option.some.injEq, Option.map_some, Option.getD_some, hpos]
      by_cases hi : above = i
      · subst hi
        have hnode' : forest.nodes[above]? = some node := hnode
        simp only [hnode', habove, if_true, Option.map_some]
      · simp only [hi, if_false]

/-- The next number is free. -/
theorem node?_size : forest.node? forest.size = none := by
  simp [node?, size]

/-- The new node has the parent that it was added to, and no other node changes its parent. -/
theorem parent?_add (added : forest.add label parent = .ok (after, id)) (i : Nat) :
    after.parent? i = if i = forest.size then parent else forest.parent? i := by
  unfold parent?
  rw [node?_add added i]
  by_cases hi : i = forest.size
  · simp [hi]
  · by_cases hp : parent = some i
    · simp only [if_neg hi, if_pos hp]
      cases forest.node? i <;> rfl
    · simp [hi, hp]

/-- The parent gets the new node as its last child, and no other node gets one. -/
theorem childList_add (added : forest.add label parent = .ok (after, id)) (i : Nat) :
    after.childList i =
      if parent = some i then forest.childList i ++ [forest.size] else forest.childList i := by
  obtain ⟨rfl, -, hlt⟩ := id_of_add added
  unfold childList children?
  rw [node?_add added i]
  by_cases hi : i = forest.size
  · subst hi
    -- The new node is no child of itself, and has no children yet.
    have hp : parent ≠ some forest.size := fun h => (hlt _ h).ne rfl
    simp [hp, node?_size]
  · by_cases hp : parent = some i
    · simp only [if_neg hi, if_pos hp]
      have hi' := hlt i hp
      obtain ⟨node, hnode⟩ : ∃ node, forest.node? i = some node :=
        ⟨forest.nodes[i], Array.getElem?_eq_getElem hi'⟩
      simp [hnode]
    · simp [hi, hp]

/-- The label of a node, and the empty one of an unknown number. -/
theorem label_eq (forest : Forest) (i : Nat) :
    forest.label i = ((forest.node? i).map Node.label).getD default := by
  unfold Forest.label
  cases forest.node? i <;> rfl

/-- The new node has its own label, and no other label changes. -/
theorem label_add (added : forest.add label parent = .ok (after, id)) (i : Nat) :
    after.label i = if i = forest.size then label else forest.label i := by
  rw [label_eq, node?_add added i, label_eq]
  by_cases hi : i = forest.size
  · simp [hi]
  · by_cases hp : parent = some i
    · simp only [if_neg hi, if_pos hp]
      cases forest.node? i <;> rfl
    · simp [hi, hp]

/-- The nodes that are there keep their places among their siblings. -/
theorem position_add (added : forest.add label parent = .ok (after, id)) (hi : i < forest.size) :
    (⟨after, i⟩ : Place).position = (⟨forest, i⟩ : Place).position := by
  unfold Place.position Place.node?
  dsimp only
  rw [node?_add added i, if_neg hi.ne]
  by_cases hp : parent = some i
  · rw [if_pos hp]
    cases forest.node? i <;> rfl
  · rw [if_neg hp]

/-! ### Every grown forest is linked -/

/-- Only a node has a parent. -/
theorem lt_size_of_parent? (h : forest.parent? id = some above) : id < forest.size := by
  unfold parent? at h
  obtain ⟨node, hnode, -⟩ := Option.bind_eq_some_iff.mp h
  exact (Array.getElem?_eq_some_iff.mp hnode).1

/-- Where there are no nodes there are no links. -/
theorem linked_empty : Linked {} := by
  constructor <;> simp [node?, parent?, childList, children?]

/-- The new node is a child of its parent, and no other list of children has changed. -/
theorem Linked.mem_childList_add (linked : forest.Linked)
    (added : forest.add label parent = .ok (after, id)) {i above : Nat} :
    i ∈ after.childList above ↔ after.parent? i = some above := by
  rw [childList_add added above, parent?_add added i]
  have hold : i ∈ forest.childList above ↔ forest.parent? i = some above := linked.mem_childList
  have hsize : i = forest.size → i ∉ forest.childList above := by
    intro hi hmem
    have := lt_size_of_parent? (hold.mp hmem)
    omega
  by_cases hp : parent = some above
  · by_cases hi : i = forest.size
    · simp [hp, hi]
    · simp [hp, hi, hold]
  · by_cases hi : i = forest.size
    · have hnot := hsize hi
      subst hi
      simp [hp, hnot]
    · simp [hp, hi, hold]

/-- The new node has the place behind its siblings, and the others keep theirs. -/
theorem Linked.getElem?_position_add (linked : forest.Linked)
    (added : forest.add label parent = .ok (after, id)) {i above : Nat}
    (hparent : after.parent? i = some above) :
    (after.childList above)[(⟨after, i⟩ : Place).position]? = some i := by
  rw [parent?_add added i] at hparent
  rw [childList_add added above]
  by_cases hi : i = forest.size
  · rw [if_pos hi] at hparent
    -- The new node comes last, so its place is the number of siblings before it.
    have hpos : (⟨after, i⟩ : Place).position = (forest.childList above).length := by
      unfold Place.position Place.node?
      dsimp only
      rw [node?_add added i, if_pos hi]
      simp [hparent]
    rw [hpos, if_pos hparent, hi]
    simp
  · rw [if_neg hi] at hparent
    rw [position_add added (lt_size_of_parent? hparent)]
    have hpos := linked.position hparent
    split
    · rw [List.getElem?_append_left (List.getElem?_eq_some_iff.mp hpos).1]
      exact hpos
    · exact hpos

/-- One more node keeps the links together. -/
theorem Linked.add (linked : forest.Linked) (added : forest.add label parent = .ok (after, id)) :
    after.Linked where
  id_eq {i node} hnode := by
    rw [node?_add added i] at hnode
    split at hnode
    · next hi =>
      obtain rfl := Option.some.inj hnode
      exact (id_of_add added).1.trans hi.symm
    · split at hnode
      · obtain ⟨old, hold, rfl⟩ := Option.map_eq_some_iff.mp hnode
        exact (linked.id_eq hold : old.id = i)
      · exact linked.id_eq hnode
  parent_lt {i above} hparent := by
    rw [parent?_add added i] at hparent
    split at hparent
    · have := (id_of_add added).2.2 above hparent
      omega
    · exact linked.parent_lt hparent
  mem_childList := linked.mem_childList_add added
  sorted i := by
    rw [childList_add added i]
    split
    · -- the new number is greater than those of all nodes there are
      refine List.pairwise_append.mpr ⟨linked.sorted i, List.pairwise_singleton _ _, ?_⟩
      intro a ha b hb
      obtain rfl := List.mem_singleton.mp hb
      exact lt_size_of_parent? (linked.mem_childList.mp ha)
    · exact linked.sorted i
  position hparent := linked.getElem?_position_add added hparent

/-- **Every grown forest is linked.** -/
theorem Grown.linked (grown : forest.Grown) : forest.Linked := by
  induction grown with
  | empty => exact linked_empty
  | add _ added ih => exact ih.add added

/-- A root with two children, the first of which has a child. -/
def sapling : Forest :=
  ⟨#[{ id := 0, label := ⟨"Pair", 0, 2⟩, parent := none, children := #[1, 3] },
    { id := 1, label := ⟨"Left", 0, 1⟩, parent := some 0, children := #[2] },
    { id := 2, label := ⟨"Leaf", 0, 1⟩, parent := some 1 },
    { id := 3, label := ⟨"Right", 1, 2⟩, parent := some 0, position := 1 }]⟩

/-- It is grown node by node. -/
theorem grown_sapling : sapling.Grown := by
  have root := Grown.add .empty (show add {} ⟨"Pair", 0, 2⟩ none = .ok (_, 0) from rfl)
  have left := root.add (show add _ ⟨"Left", 0, 1⟩ (some 0) = .ok (_, 1) from rfl)
  have leaf := left.add (show add _ ⟨"Leaf", 0, 1⟩ (some 1) = .ok (_, 2) from rfl)
  exact leaf.add (show add _ ⟨"Right", 1, 2⟩ (some 0) = .ok (_, 3) from rfl)

/-! ### Children and siblings -/

/-- Only nodes are children. -/
theorem lt_size_of_mem_childList (linked : forest.Linked) (h : id ∈ forest.childList above) :
    id < forest.size :=
  lt_size_of_parent? (linked.mem_childList.mp h)

/-- No node is a child twice. -/
theorem Linked.nodup_childList (linked : forest.Linked) (id : Nat) : (forest.childList id).Nodup :=
  (linked.sorted id).imp fun h => h.ne

/-- The number at a place of a list of children is a child, with the rest of the list behind it. -/
theorem Linked.later_of_getElem? (linked : forest.Linked)
    (h : (forest.childList above)[i]? = some id) :
    forest.parent? id = some above ∧ forest.later id = (forest.childList above).drop (i + 1) := by
  have hparent : forest.parent? id = some above :=
    linked.mem_childList.mp (List.mem_of_getElem? h)
  have hi : i < (forest.childList above).length := (List.getElem?_eq_some_iff.mp h).1
  -- Children are distinct, so the place in the list is the node's own.
  have hpos : i = (⟨forest, id⟩ : Place).position :=
    (List.getElem?_inj hi (linked.nodup_childList above)).mp
      (h.trans (linked.position hparent).symm)
  exact ⟨hparent, by rw [later, hparent, hpos]⟩

/-- The first child of a node has the other children behind it. -/
theorem Linked.later_of_childList (linked : forest.Linked) {child : Nat} {rest : List Nat}
    (h : forest.childList id = child :: rest) :
    forest.parent? child = some id ∧ forest.later child = rest := by
  have hget : (forest.childList id)[0]? = some child := by simp [h]
  obtain ⟨hparent, hlater⟩ := linked.later_of_getElem? hget
  exact ⟨hparent, by simp [hlater, h]⟩

/-- The next sibling of a node has the same parent, and the remaining siblings behind it. -/
theorem Linked.later_of_later (linked : forest.Linked) {next : Nat} {rest : List Nat}
    (h : forest.later id = next :: rest) :
    forest.parent? next = forest.parent? id ∧ forest.later next = rest := by
  unfold later at h
  cases hparent : forest.parent? id with
  | none => simp [hparent] at h
  | some above =>
    simp only [hparent] at h
    have hget : (forest.childList above)[(⟨forest, id⟩ : Place).position + 1]? = some next := by
      rw [← List.head?_drop, h, List.head?_cons]
    obtain ⟨hnext, hlater⟩ := linked.later_of_getElem? hget
    refine ⟨hnext, ?_⟩
    rw [hlater, ← List.tail_drop, h, List.tail_cons]

/-- There are fewer siblings than nodes. -/
theorem Linked.length_later_le (linked : forest.Linked) (id : Nat) :
    (forest.later id).length ≤ forest.size := by
  unfold later
  cases forest.parent? id with
  | none => simp
  | some above =>
    -- Distinct numbers below the size are no more than the size.
    have hsub : forest.childList above ⊆ List.range forest.size := fun child hchild =>
      List.mem_range.mpr (lt_size_of_mem_childList linked hchild)
    have hlen := ((linked.nodup_childList above).subperm hsub).length_le
    simp only [List.length_range] at hlen
    simp only [List.length_drop]
    omega

end Forest

/-! ### The moves of a place -/

namespace Place

variable {forest : Forest} {id : Nat}

/-- The first child of a place is the first one on its list. -/
theorem firstChild?_eq (forest : Forest) (id : Nat) :
    Cursor.firstChild? (⟨forest, id⟩ : Place) =
      (forest.childList id).head?.map (Place.mk forest) := by
  show Option.map (Place.mk forest) ((forest.children? id).bind _) = _
  unfold Forest.childList
  cases forest.children? id with
  | none => rfl
  | some children => simp [List.head?_eq_getElem?]

/-- The next sibling of a place is the first of those behind it. -/
theorem nextSibling?_eq (forest : Forest) (id : Nat) :
    Cursor.nextSibling? (⟨forest, id⟩ : Place) =
      (forest.later id).head?.map (Place.mk forest) := by
  show Option.map (Place.mk forest) ((Option.bind (forest.parent? id) forest.children?).bind _) = _
  unfold Forest.later Forest.childList
  cases forest.parent? id with
  | none => rfl
  | some above =>
    dsimp only [Option.bind_some]
    cases forest.children? above with
    | none => simp
    | some children => simp [List.head?_drop]

theorem parent?_eq (forest : Forest) (id : Nat) :
    Cursor.parent? (⟨forest, id⟩ : Place) = (forest.parent? id).map (Place.mk forest) := rfl

/-- The peek tells whether there are siblings behind a place. -/
theorem hasNextSibling_eq (forest : Forest) (id : Nat) :
    Cursor.hasNextSibling (⟨forest, id⟩ : Place) = !(forest.later id).isEmpty := by
  dsimp only [Cursor.hasNextSibling, siblings?]
  unfold Forest.later Forest.childList
  cases forest.parent? id with
  | none => rfl
  | some above =>
    dsimp only [Option.bind_some]
    cases forest.children? above with
    | none => simp
    | some children =>
      rw [Bool.eq_iff_iff]
      simp

/-- Going from sibling to sibling comes by all that are behind a place, if that many steps are allowed. -/
theorem followingUpTo_eq (linked : forest.Linked) (n : Nat) (id : Nat)
    (h : (forest.later id).length ≤ n) :
    Cursor.followingUpTo n (⟨forest, id⟩ : Place) = (forest.later id).map (Place.mk forest) := by
  induction n generalizing id with
  | zero => simp [Cursor.followingUpTo, List.eq_nil_of_length_eq_zero (Nat.le_zero.mp h)]
  | succ n ih =>
    rw [Cursor.followingUpTo, nextSibling?_eq]
    cases hlater : forest.later id with
    | nil => rfl
    | cons next rest =>
      -- Each step goes to a sibling with one fewer behind it.
      obtain ⟨-, hnext⟩ := linked.later_of_later hlater
      have hlen : (forest.later next).length ≤ n := by
        rw [hlater, List.length_cons] at h
        rw [hnext]
        omega
      simp only [List.head?_cons, Option.map_some, List.map_cons]
      rw [ih next hlen, hnext]

/-- The first child of a node has the other children behind it. -/
theorem firstChild?_eq_some (linked : forest.Linked) {child : Place}
    (h : Cursor.firstChild? (⟨forest, id⟩ : Place) = some child) :
    ∃ first rest, child = ⟨forest, first⟩ ∧ forest.childList id = first :: rest ∧
      forest.parent? first = some id ∧ forest.later first = rest := by
  rw [firstChild?_eq] at h
  obtain ⟨first, hhead, rfl⟩ := Option.map_eq_some_iff.mp h
  obtain ⟨rest, hchildren⟩ := List.head?_eq_some_iff.mp hhead
  obtain ⟨hparent, hlater⟩ := linked.later_of_childList hchildren
  exact ⟨first, rest, rfl, hchildren, hparent, hlater⟩

/-- There is no way down exactly from where there are no children. -/
theorem firstChild?_eq_none :
    Cursor.firstChild? (⟨forest, id⟩ : Place) = none ↔ forest.childList id = [] := by
  rw [firstChild?_eq, Option.map_eq_none_iff, List.head?_eq_none_iff]

/-- The next sibling of a node has the same parent, and the remaining siblings behind it. -/
theorem nextSibling?_eq_some (linked : forest.Linked) {next : Place}
    (h : Cursor.nextSibling? (⟨forest, id⟩ : Place) = some next) :
    ∃ sibling rest, next = ⟨forest, sibling⟩ ∧ forest.later id = sibling :: rest ∧
      forest.parent? sibling = forest.parent? id ∧ forest.later sibling = rest := by
  rw [nextSibling?_eq] at h
  obtain ⟨sibling, hhead, rfl⟩ := Option.map_eq_some_iff.mp h
  obtain ⟨rest, hlater⟩ := List.head?_eq_some_iff.mp hhead
  obtain ⟨hparent, hrest⟩ := linked.later_of_later hlater
  exact ⟨sibling, rest, rfl, hlater, hparent, hrest⟩

/-- There is no way on exactly from the last sibling. -/
theorem nextSibling?_eq_none :
    Cursor.nextSibling? (⟨forest, id⟩ : Place) = none ↔ forest.later id = [] := by
  rw [nextSibling?_eq, Option.map_eq_none_iff, List.head?_eq_none_iff]

/-- The way up from a place leads to the parent. -/
theorem parent?_eq_some {above : Place} :
    Cursor.parent? (⟨forest, id⟩ : Place) = some above ↔
      ∃ parent, forest.parent? id = some parent ∧ above = ⟨forest, parent⟩ := by
  rw [parent?_eq, Option.map_eq_some_iff]
  simp only [eq_comm]

/-- There is no way up exactly from where there is no parent. -/
theorem parent?_eq_none :
    Cursor.parent? (⟨forest, id⟩ : Place) = none ↔ forest.parent? id = none := by
  rw [parent?_eq, Option.map_eq_none_iff]

/-- A place in a forest is the place of some number. -/
theorem exists_eq_mk {place : Place} (h : place.forest = forest) : ∃ id, place = ⟨forest, id⟩ :=
  ⟨place.id, by rw [← h]⟩

/-- A place sees all siblings behind it. -/
theorem following_eq (linked : forest.Linked) (id : Nat) :
    Cursor.following (⟨forest, id⟩ : Place) = (forest.later id).map (Place.mk forest) :=
  followingUpTo_eq linked _ id (linked.length_later_le id)

end Place

end BoxTree
