import BoxTree.Proofs.GrownForest
import BoxTree.Syntax.Moves

namespace BoxTree

/-!
# Where the moves of a cursor lead

A cursor finds its way by lists of children and by the places in them. In a grown forest these come to the
same as the parents alone: of the nodes that have the same parent, the one with the lowest number is the
first child, and the next higher one the next sibling.

* `Forest.NextSibling`, `Forest.Leads` — where a move leads, as the parents tell it.
* `Forest.Linked.mem_later` — the siblings behind a node are those with higher numbers.
* `Place.step_eq_true_iff` — a cursor goes where a move leads.
* `Place.reach_keeps` — it never leaves the nodes of the forest.
* `Place.trip_siblings` — going on from sibling to sibling.
* `cursor_follows_parents` — all of it, after any moves.
-/

/-! ### Sorted lists -/

section Sorted

variable {numbers : List Nat} {place number : Nat}

/-- The head of a sorted list is its least member. -/
theorem head?_eq_some_iff_isLeast (sorted : numbers.Pairwise (· < ·)) :
    numbers.head? = some number ↔ IsLeast {other | other ∈ numbers} number := by
  cases numbers with
  | nil => simp [IsLeast]
  | cons first rest =>
    have hfirst : ∀ other ∈ rest, first < other := (List.pairwise_cons.mp sorted).1
    have hleast : IsLeast {other | other ∈ first :: rest} first := by
      refine ⟨List.mem_cons_self .., fun other hother => ?_⟩
      obtain rfl | hrest := List.mem_cons.mp hother
      · exact le_refl _
      · exact (hfirst other hrest).le
    rw [List.head?_cons, Option.some_inj]
    exact ⟨fun h => h ▸ hleast, hleast.unique⟩

/-- What is behind a member of a sorted list is greater, and nothing else is. -/
theorem mem_drop_iff_lt (sorted : numbers.Pairwise (· < ·)) (h : numbers[place]? = some number)
    {other : Nat} : other ∈ numbers.drop (place + 1) ↔ number < other ∧ other ∈ numbers := by
  obtain ⟨hplace, rfl⟩ := List.getElem?_eq_some_iff.mp h
  rw [List.pairwise_iff_getElem] at sorted
  constructor
  · intro hother
    obtain ⟨i, hi, rfl⟩ := List.mem_iff_getElem.mp hother
    rw [List.length_drop] at hi
    rw [List.getElem_drop]
    exact ⟨sorted _ _ _ _ (by omega), List.getElem_mem _⟩
  · rintro ⟨hlt, hother⟩
    obtain ⟨i, hi, rfl⟩ := List.mem_iff_getElem.mp hother
    -- A member that is not behind is not greater.
    have hbehind : place < i := by
      obtain hless | rfl | hmore := Nat.lt_trichotomy i place
      · exact absurd (sorted i place hi hplace hless) (Nat.lt_asymm hlt)
      · exact absurd hlt (lt_irrefl _)
      · exact hmore
    rw [List.mem_iff_getElem]
    refine ⟨i - (place + 1), by rw [List.length_drop]; omega, ?_⟩
    rw [List.getElem_drop]
    congr 1
    omega

end Sorted

/-! ### What the parents tell -/

namespace Forest

variable {forest : Forest} {id next : Nat}

/-- The next sibling of a node has the same parent and the next higher number. A root has no siblings. -/
def NextSibling (forest : Forest) (id next : Nat) : Prop :=
  ∃ above, forest.parent? id = some above ∧
    IsLeast {sibling | id < sibling ∧ forest.parent? sibling = some above} next

/-- Where a move from one node leads to another. -/
def Leads (forest : Forest) (id : Nat) : Move → Nat → Prop
  | .firstChild, target => IsLeast {child | forest.parent? child = some id} target
  | .nextSibling, target => forest.NextSibling id target
  | .parent, target => forest.parent? id = some target
  | .peek, target => target = id ∧ ∃ next, forest.NextSibling id next

/-- **The first child** is the node with the lowest number of those with this parent. -/
theorem Linked.head?_childList (linked : forest.Linked) {child : Nat} :
    (forest.childList id).head? = some child ↔
      IsLeast {child | forest.parent? child = some id} child := by
  rw [head?_eq_some_iff_isLeast (linked.sorted id)]
  simp only [linked.mem_childList]

/-- **The siblings behind a node** are those with higher numbers. -/
theorem Linked.mem_later (linked : forest.Linked) {above sibling : Nat}
    (hparent : forest.parent? id = some above) :
    sibling ∈ forest.later id ↔ id < sibling ∧ forest.parent? sibling = some above := by
  rw [later, hparent, mem_drop_iff_lt (linked.sorted above) (linked.position hparent),
    linked.mem_childList]

/-- The siblings behind a node are in the order of their numbers. -/
theorem Linked.sorted_later (linked : forest.Linked) (id : Nat) :
    (forest.later id).Pairwise (· < ·) := by
  unfold later
  split
  · exact (linked.sorted _).sublist (List.drop_sublist _ _)
  · exact List.Pairwise.nil

/-- **The next sibling** is the first of the siblings behind a node. -/
theorem Linked.head?_later (linked : forest.Linked) :
    (forest.later id).head? = some next ↔ forest.NextSibling id next := by
  unfold NextSibling
  cases hparent : forest.parent? id with
  | none => simp [later, hparent]
  | some above =>
    rw [head?_eq_some_iff_isLeast (linked.sorted_later id)]
    simp [linked.mem_later hparent]

/-- The parent of a node is a node, and so is every node that has a parent. -/
theorem Linked.contains_of_leads (linked : forest.Linked) (inForest : forest.contains id = true)
    {move : Move} {target : Nat} (leads : forest.Leads id move target) :
    forest.contains target = true := by
  have hid : id < forest.size := of_decide_eq_true inForest
  have hchild : ∀ {child above}, forest.parent? child = some above → forest.contains child = true :=
    fun hparent => decide_eq_true (lt_size_of_parent? hparent)
  cases move with
  | firstChild => exact hchild leads.1
  | nextSibling =>
    obtain ⟨above, -, hleast⟩ := leads
    exact hchild hleast.1.2
  | parent => exact decide_eq_true ((linked.parent_lt leads).trans hid)
  | peek => exact leads.1 ▸ inForest

end Forest

/-! ### What a cursor does -/

namespace Cursor

variable {κ : Type} {c target : κ}

/-- A cursor goes exactly where something is found. -/
theorem go_eq_true {found : Option κ} : go c found = (true, target) ↔ found = some target := by
  cases found <;> simp [go]

/-- If a cursor goes somewhere, something was found. -/
theorem exists_of_go {found : Option κ} (h : (go c found).1 = true) : ∃ target, found = some target := by
  cases found with
  | none => cases h
  | some target => exact ⟨target, rfl⟩

/-- Where nothing is found, a cursor stays. -/
theorem go_stays {found : Option κ} (h : (go c found).1 = false) : (go c found).2 = c := by
  cases found with
  | none => rfl
  | some => cases h

/-- A move that is not possible leaves the cursor in place. -/
theorem step_stays [Cursor κ] {move : Move} (h : (step c move).1 = false) : (step c move).2 = c := by
  cases move with
  | firstChild | nextSibling | parent => exact go_stays h
  | peek => rfl

/-- A trip has a stop for each of its moves. -/
theorem length_trip [Cursor κ] (c : κ) (moves : List Move) : (trip c moves).length = moves.length := by
  induction moves generalizing c with
  | nil => rfl
  | cons move rest ih => rw [trip, List.length_cons, List.length_cons, ih]

end Cursor

namespace Place

variable {forest : Forest} {id target : Nat} {move : Move}

open Cursor

/-- **A cursor goes where a move leads**, and only there. -/
theorem step_eq_true_iff (linked : forest.Linked) {after : Place} :
    step (⟨forest, id⟩ : Place) move = (true, after) ↔
      after.forest = forest ∧ forest.Leads id move after.id := by
  have hmk : ∀ {found : Option Nat}, found.map (Place.mk forest) = some after ↔
      after.forest = forest ∧ found = some after.id := by
    intro found
    obtain ⟨other, number⟩ := after
    cases found <;> simp [Place.mk.injEq, eq_comm]
  cases move with
  | firstChild =>
    rw [step, go_eq_true, firstChild?_eq, hmk, linked.head?_childList]
    rfl
  | nextSibling =>
    rw [step, go_eq_true, nextSibling?_eq, hmk, linked.head?_later]
    rfl
  | parent =>
    rw [step, go_eq_true, parent?_eq, hmk]
    rfl
  | peek =>
    have hsome : (forest.later id).isEmpty = false ↔ ∃ next, forest.NextSibling id next := by
      simp only [← linked.head?_later, ← Option.isSome_iff_exists]
      cases forest.later id <;> simp
    rw [step, Prod.mk.injEq, hasNextSibling_eq, Bool.not_eq_true', hsome, Forest.Leads]
    obtain ⟨other, number⟩ := after
    rw [Place.mk.injEq]
    grind

/-- The answer tells whether the move leads anywhere. -/
theorem answer_iff (linked : forest.Linked) :
    (step (⟨forest, id⟩ : Place) move).1 = true ↔ ∃ target, forest.Leads id move target := by
  constructor
  · intro h
    have hstep : step (⟨forest, id⟩ : Place) move = (true, (step ⟨forest, id⟩ move).2) := by rw [← h]
    exact ⟨_, ((step_eq_true_iff linked).mp hstep).2⟩
  · rintro ⟨target, leads⟩
    have hstep : step (⟨forest, id⟩ : Place) move = (true, ⟨forest, target⟩) :=
      (step_eq_true_iff linked).mpr ⟨rfl, leads⟩
    rw [hstep]

/-- A cursor knows whether it can go on to a sibling. -/
theorem step_peek (linked : forest.Linked) :
    step (⟨forest, id⟩ : Place) .peek = ((step (⟨forest, id⟩ : Place) .nextSibling).1, ⟨forest, id⟩) := by
  have hanswer : (step (⟨forest, id⟩ : Place) .peek).1 = (step (⟨forest, id⟩ : Place) .nextSibling).1 := by
    rw [Bool.eq_iff_iff, answer_iff linked, answer_iff linked]
    simp [Forest.Leads]
  exact Prod.ext hanswer rfl

/-- A cursor that cannot go on to a sibling has none behind it. -/
theorem later_of_step (h : (step (⟨forest, id⟩ : Place) .nextSibling).1 = false) :
    forest.later id = [] := by
  rw [← nextSibling?_eq_none]
  cases hnext : nextSibling? (⟨forest, id⟩ : Place) with
  | none => rfl
  | some after => simp [step, go, hnext] at h

/-- One move leads from a node to a node. -/
theorem step_keeps (linked : forest.Linked) (inForest : forest.contains id = true) (move : Move) :
    ∃ target, (step (⟨forest, id⟩ : Place) move).2 = ⟨forest, target⟩ ∧
      forest.contains target = true := by
  cases hanswer : (step (⟨forest, id⟩ : Place) move).1 with
  | false => exact ⟨id, step_stays hanswer, inForest⟩
  | true =>
    have hstep : step (⟨forest, id⟩ : Place) move = (true, (step ⟨forest, id⟩ move).2) := by
      rw [← hanswer]
    obtain ⟨hforest, leads⟩ := (step_eq_true_iff linked).mp hstep
    obtain ⟨target, htarget⟩ := exists_eq_mk hforest
    rw [htarget] at leads
    exact ⟨target, htarget, linked.contains_of_leads inForest leads⟩

/-- **Moves never leave the forest.** -/
theorem reach_keeps (linked : forest.Linked) (moves : List Move) (inForest : forest.contains id = true) :
    ∃ target, reach (⟨forest, id⟩ : Place) moves = ⟨forest, target⟩ ∧ forest.contains target = true := by
  induction moves generalizing id with
  | nil => exact ⟨id, rfl, inForest⟩
  | cons move rest ih =>
    obtain ⟨target, hstep, hcontains⟩ := step_keeps linked inForest move
    rw [reach, hstep]
    exact ih hcontains

/-! ### A round of the children -/

/-- The nodes that a cursor comes to. -/
def stops (trip : List (Bool × Place)) : List Nat := trip.map fun stop => stop.2.id

/-- **Going on from sibling to sibling** passes the siblings behind a node in order. -/
theorem trip_siblings (linked : forest.Linked) (n : Nat) (child : Nat)
    (possible : ∀ stop ∈ trip (⟨forest, child⟩ : Place) (List.replicate n .nextSibling), stop.1 = true) :
    ∃ last, reach (⟨forest, child⟩ : Place) (List.replicate n .nextSibling) = ⟨forest, last⟩ ∧
      forest.parent? last = forest.parent? child ∧
      stops (trip (⟨forest, child⟩ : Place) (List.replicate n .nextSibling)) ++ forest.later last =
        forest.later child := by
  induction n generalizing child with
  | zero => exact ⟨child, rfl, rfl, rfl⟩
  | succ n ih =>
    rw [List.replicate_succ, trip] at possible
    obtain ⟨hfirst, hrest⟩ := List.forall_mem_cons.mp possible
    obtain ⟨after, hafter⟩ := exists_of_go hfirst
    obtain ⟨sibling, rest, rfl, hlater, hparent, hbehind⟩ := nextSibling?_eq_some linked hafter
    have hstep : step (⟨forest, child⟩ : Place) .nextSibling = (true, ⟨forest, sibling⟩) :=
      go_eq_true.mpr hafter
    rw [hstep] at hrest
    obtain ⟨last, hreach, hsame, hstops⟩ := ih sibling hrest
    refine ⟨last, ?_, hsame.trans hparent, ?_⟩
    · rw [List.replicate_succ, reach, hstep]
      exact hreach
    · rw [List.replicate_succ, trip, hstep, hlater, ← hbehind, ← hstops]
      rfl

/-- **A round of the children** passes them in order, and comes back to their parent. -/
theorem round_of_children (linked : forest.Linked) (n : Nat) :
    let place : Place := ⟨forest, id⟩
    let round := Move.firstChild :: List.replicate n .nextSibling
    (∀ stop ∈ trip place round, stop.1 = true) →
      step (reach place round) .parent = (true, place) ∧
        ∃ last, reach place round = ⟨forest, last⟩ ∧
          stops (trip place round) ++ forest.later last = forest.childList id := by
  intro place round possible
  obtain ⟨hfirst, hrest⟩ := List.forall_mem_cons.mp (show ∀ stop ∈
    step place .firstChild :: trip (step place .firstChild).2 (List.replicate n .nextSibling), _ from possible)
  obtain ⟨after, hafter⟩ := exists_of_go hfirst
  obtain ⟨child, rest, rfl, hchildren, hparent, hlater⟩ := firstChild?_eq_some linked hafter
  have hstep : step place .firstChild = (true, ⟨forest, child⟩) := go_eq_true.mpr hafter
  rw [hstep] at hrest
  obtain ⟨last, hreach, hsame, hstops⟩ := trip_siblings linked n child hrest
  have hround : reach place round = ⟨forest, last⟩ := by
    unfold round
    rw [reach, hstep]
    exact hreach
  refine ⟨?_, last, hround, ?_⟩
  · rw [hround, step_eq_true_iff linked]
    exact ⟨rfl, hsame.trans hparent⟩
  · unfold round
    rw [trip, hstep, hchildren, ← hlater, ← hstops]
    rfl

end Place

/-- **A cursor follows the parents.** Whatever moves it makes from a node of a grown forest, it stands on a
    node of the forest. From there a move leads to the first child, which is the lowest of the numbers that
    have the node as their parent; to the next sibling, which is the next higher of the numbers with the
    same parent, while a root has none; or to the parent. It is possible if and only if there is such a node,
    and leaves the cursor in place if there is none. The cursor knows whether there is a next sibling without
    going there. Going down to the first child, on to any number of siblings and up again leads back; on the
    way every stop is another child, in order, and if there is no sibling to go on to, all children have been
    visited. -/
theorem cursor_follows_parents {forest : Forest} (grown : forest.Grown) {id : Nat}
    (inForest : forest.contains id = true) (moves : List Move) :
    ∃ start, Place.ofId forest id = .ok start ∧ start.id = id ∧
      let place := Cursor.reach start moves
      place.forest = forest ∧ forest.contains place.id = true ∧
        (∀ move after, Cursor.step place move = (true, after) ↔
          after.forest = forest ∧ forest.Leads place.id move after.id) ∧
        (∀ move, (Cursor.step place move).1 = true ↔ ∃ target, forest.Leads place.id move target) ∧
        (∀ move, (Cursor.step place move).1 = false → (Cursor.step place move).2 = place) ∧
        Cursor.step place .peek = ((Cursor.step place .nextSibling).1, place) ∧
        ∀ n, let round := Move.firstChild :: List.replicate n .nextSibling
          let visited := Place.stops (Cursor.trip place round)
          (∀ stop ∈ Cursor.trip place round, stop.1 = true) →
            Cursor.step (Cursor.reach place round) .parent = (true, place) ∧
              visited.length = n + 1 ∧ visited.Pairwise (· < ·) ∧
              (∀ child ∈ visited, forest.parent? child = some place.id) ∧
              ((Cursor.step (Cursor.reach place round) .nextSibling).1 = false →
                ∀ child, forest.parent? child = some place.id → child ∈ visited) := by
  have linked := grown.linked
  refine ⟨⟨forest, id⟩, if_pos inForest, rfl, ?_⟩
  obtain ⟨here, hreach, hcontains⟩ := Place.reach_keeps linked moves inForest
  rw [hreach]
  refine ⟨rfl, hcontains, fun move after => Place.step_eq_true_iff linked,
    fun move => Place.answer_iff linked, fun move => Cursor.step_stays, Place.step_peek linked,
    fun n possible => ?_⟩
  obtain ⟨hparent, last, hround, hvisited⟩ := Place.round_of_children linked n possible
  -- The children are sorted, and what has been visited is the beginning of them.
  have hsorted := linked.sorted here
  rw [← hvisited] at hsorted
  refine ⟨hparent, ?_, (List.pairwise_append.mp hsorted).1, fun child hchild => ?_, fun hend child hchild => ?_⟩
  · simp [Place.stops, Cursor.length_trip]
  · rw [← linked.mem_childList, ← hvisited]
    exact List.mem_append_left _ hchild
  · have hnone : forest.later last = [] := by
      rw [hround] at hend
      exact Place.later_of_step hend
    rwa [← linked.mem_childList, ← hvisited, hnone, List.append_nil] at hchild

/-- The root of a small tree has two children. The walk begins at a leaf and gets to the root first. -/
theorem round_of_sapling :
    let climb : List Move := [.nextSibling, .parent, .parent, .parent]
    let place := Cursor.reach (⟨.sapling, 2⟩ : Place) climb
    let round : List Move := [.firstChild, .nextSibling]
    Forest.sapling.Grown ∧ Forest.sapling.contains 2 = true ∧ place = ⟨.sapling, 0⟩ ∧
      (∀ stop ∈ Cursor.trip place round, stop.1 = true) ∧
      Cursor.step (Cursor.reach place round) .parent = (true, place) ∧
      (Cursor.step (Cursor.reach place round) .nextSibling).1 = false ∧
      ∀ child, Forest.sapling.parent? child = some 0 → child ∈ [1, 3] := by
  intro climb place round
  have inForest : Forest.sapling.contains 2 = true := rfl
  have possible : ∀ stop ∈ Cursor.trip place round, stop.1 = true := by decide
  have hend : (Cursor.step (Cursor.reach place round) .nextSibling).1 = false := rfl
  obtain ⟨start, hstart, -, -, -, -, -, -, -, hround⟩ :=
    cursor_follows_parents Forest.grown_sapling inForest climb
  obtain rfl : (⟨.sapling, 2⟩ : Place) = start := Except.ok.inj hstart
  obtain ⟨hparent, -, -, -, hall⟩ := hround 1 possible
  exact ⟨Forest.grown_sapling, inForest, rfl, possible, hparent, hend, hall hend⟩

end BoxTree
