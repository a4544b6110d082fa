import BoxTree.Proofs.CursorReturns

namespace BoxTree

/-!
# How long a walk is

Each node is taken once and left once. A walk is given twice as many moves as there are nodes, which is
as many as it can need.

* `Stream.movesLeft` — how many moves there are at most, read off a moment of the walk.
* `Stream.movesLeft_advance` — every move is one less.
* `Stream.funded_kept` — the moves that a walk was given suffice.
* `Stream.Ended`, `Stream.Funded.ended` — a call of `next` answers with nothing only where the walk has
  ended, never for want of moves.
-/

namespace Stream

variable {forest : Forest} {s t : Stream Place} {id : Nat}

/-- The moves of a walk behind a node so deep below the start: each node is taken once and left
    once. -/
def movesBehind (forest : Forest) : Nat → Nat → Nat
  | 0, _ => 1
  | depth + 1, id =>
    1 + 2 * ((forest.later id).flatMap fun sibling => (forest.tree sibling).preorder).length +
      (forest.parent? id).elim 0 (movesBehind forest depth)

/-- The moves of a walk, as far as nothing is hidden or collapsed. -/
def movesLeft (forest : Forest) (s : Stream Place) : Nat :=
  match s.task with
  | .visit => 1 + 2 * (forest.below s.cursor.id).length + movesBehind forest s.levels.length s.cursor.id
  | .onward => movesBehind forest s.levels.length s.cursor.id
  | .stop => 0

/-- There is a last move at least, the one by which the walk stops. -/
theorem movesBehind_pos (depth id : Nat) : 0 < movesBehind forest depth id := by
  cases depth with
  | zero => exact Nat.one_pos
  | succ depth =>
    rw [movesBehind]
    omega

/-- The moves of several trees, the first of which is taken next. -/
theorem movesBehind_cons (linked : forest.Linked) (id : Nat) (rest : List Nat) :
    ((id :: rest).flatMap fun sibling => (forest.tree sibling).preorder).length =
      1 + (forest.below id).length +
        (rest.flatMap fun sibling => (forest.tree sibling).preorder).length := by
  rw [List.flatMap_cons, List.length_append, linked.preorder_tree, List.length_cons]
  omega

/-- Taking a node is one move less, whether its children are taken next or left out. -/
theorem movesLeft_visit (linked : forest.Linked) (hforest : s.cursor.forest = forest)
    (htask : s.task = .visit) : movesLeft forest (checked s.visit).1 + 1 ≤ movesLeft forest s := by
  obtain ⟨id, hcursor⟩ := Place.exists_eq_mk hforest
  have hleft : movesLeft forest s =
      1 + 2 * (forest.below id).length + movesBehind forest s.levels.length id := by
    rw [movesLeft, htask, hcursor]
  obtain ⟨t, spot, h | ⟨error, h⟩ | ⟨child, hchild, h⟩⟩ := (visited s).spot <;> rw [h, hleft]
  · show movesBehind forest t.levels.length t.cursor.id + 1 ≤ _
    rw [spot.depth, spot.cursor, hcursor]
    show movesBehind forest s.levels.length id + 1 ≤ _
    omega
  · show 0 + 1 ≤ _
    omega
  · rw [hcursor] at hchild
    obtain ⟨first, rest, rfl, hchildren, hparent, hlater⟩ := Place.firstChild?_eq_some linked hchild
    have hbelow := movesBehind_cons linked first rest
    -- This move takes the node; those left are for its children and what is behind it.
    show 1 + 2 * (forest.below first).length + movesBehind forest (t.levels.length + 1) first + 1 ≤ _
    rw [movesBehind, hparent, hlater, spot.depth, Option.elim_some, Forest.below.eq_1 forest id,
      hchildren, hbelow]
    omega

/-- Going on to a sibling, or up to the parent, is one move less. -/
theorem movesLeft_onward (linked : forest.Linked) (hforest : s.cursor.forest = forest)
    (htask : s.task = .onward) : movesLeft forest (checked s.onward).1 + 1 ≤ movesLeft forest s := by
  obtain ⟨id, hcursor⟩ := Place.exists_eq_mk hforest
  have hleft : movesLeft forest s = movesBehind forest s.levels.length id := by
    rw [movesLeft, htask, hcursor]
  have hmove := left s
  generalize s.onward = result at hmove ⊢
  rw [hleft]
  cases hmove with
  | ended hlevels =>
    show 0 + 1 ≤ _
    exact movesBehind_pos _ id
  | @toSibling level outer next hlevels hbeside =>
    rw [hcursor] at hbeside
    obtain ⟨sibling, rest, rfl, hlater, hsame, hrest⟩ := Place.nextSibling?_eq_some linked hbeside
    have hbehind := movesBehind_cons linked sibling rest
    show 1 + 2 * (forest.below sibling).length + movesBehind forest s.levels.length sibling + 1 ≤ _
    rw [hlevels, List.length_cons, movesBehind, movesBehind, hsame, hrest, hlater, hbehind]
    omega
  | @toParent level outer parent hlevels hbeside habove =>
    rw [hcursor] at habove
    obtain ⟨above, hparent, rfl⟩ := Place.parent?_eq_some.mp habove
    simp only [checked, movesLeft, htask, hlevels, List.length_cons, movesBehind, hparent,
      Option.elim_some]
    omega
  | strayed =>
    show 0 + 1 ≤ _
    exact movesBehind_pos _ id

/-- Every move takes one from the moves left. -/
theorem movesLeft_advance (linked : forest.Linked) (hforest : s.cursor.forest = forest)
    (hactive : s.task ≠ .stop) : movesLeft forest s.advance.1 + 1 ≤ movesLeft forest s := by
  cases htask : s.task with
  | visit =>
    rw [advance_visit htask]
    exact movesLeft_visit (s := { s with moves := s.moves - 1 }) linked hforest htask
  | onward =>
    rw [advance_onward htask]
    exact movesLeft_onward (s := { s with moves := s.moves - 1 }) linked hforest htask
  | stop => exact absurd htask hactive

/-- No moves are left if and only if the walk has stopped. -/
theorem movesLeft_eq_zero : movesLeft forest s = 0 ↔ s.task = .stop := by
  unfold movesLeft
  cases s.task with
  | visit => simp
  | onward => simp [(movesBehind_pos s.levels.length s.cursor.id).ne']
  | stop => simp

/-- The walk may move as often as it needs to. -/
structure Funded (forest : Forest) (root : Nat) (s : Stream Place) : Prop where
  below : Below forest root s
  enough : movesLeft forest s ≤ s.moves

/-- Two moves a node are enough for the tree where the walk begins. -/
theorem funded_start (linked : forest.Linked) {root : Nat} (hroot : root < forest.size)
    (source : String) (theme : Theme) (filter : Filter) :
    Funded forest root (start ⟨forest, root⟩ source theme filter) := by
  refine ⟨below_start .., ?_⟩
  have hlength := linked.length_preorder_tree_le hroot
  rw [linked.preorder_tree, List.length_cons] at hlength
  show 1 + 2 * (forest.below root).length + 1 ≤ 2 * forest.size
  omega

/-- **The moves suffice at every moment of a walk.** A move takes one from those given and at least one from
    those needed. -/
theorem funded_kept (linked : forest.Linked) (root : Nat) : Kept (Funded forest root) where
  pending s rest h := ⟨(below_kept linked root).pending s rest h.below, h.enough⟩
  advance s h := by
    refine ⟨(below_kept linked root).advance s h.below, ?_⟩
    rw [moves_advance]
    have henough := h.enough
    -- A walk that has stopped needs no moves, and may be moved all the same.
    by_cases htask : s.task = .stop
    · have hstop : movesLeft forest s.advance.1 = 0 := by
        rw [advance_stop htask]
        exact movesLeft_eq_zero.mpr htask
      omega
    · have := movesLeft_advance linked h.below.inForest htask
      omega

/-! ### The end of a walk -/

/-- Nothing is left to do and nothing to yield. -/
structure Ended {κ : Type} (s : Stream κ) : Prop where
  task : s.task = .stop
  pending : s.pending = []

/-- A walk that has ended stays as it is. -/
theorem Ended.next {κ : Type} [Cursor κ] {s : Stream κ} (ended : s.Ended) : s.next = (none, s) := by
  rw [Stream.next, search_stop _ ended.pending ended.task]

/-- Calls of `next` do not change a walk that has ended. -/
theorem Ended.after {κ : Type} [Cursor κ] {s : Stream κ} (ended : s.Ended) (n : Nat) : s.after n = s := by
  induction n with
  | zero => rfl
  | succ n ih => rw [Stream.after, ended.next, ih]

/-- **A call answers with nothing only where the walk has ended.** It does not run out of moves. -/
theorem Funded.ended (linked : forest.Linked) {root : Nat} (funded : Funded forest root s)
    (hnone : s.next.1 = none) : s.next.2.Ended := by
  unfold Stream.next at hnone ⊢
  generalize hmoves : s.moves = fuel at hnone ⊢
  induction fuel generalizing s with
  | zero =>
    cases hpending : s.pending with
    | nil =>
      have hleft : movesLeft forest s = 0 := Nat.le_zero.mp (hmoves ▸ funded.enough)
      rw [search_zero hpending]
      exact ⟨movesLeft_eq_zero.mp hleft, hpending⟩
    | cons line rest =>
      rw [search_pending 0 hpending] at hnone
      cases hnone
  | succ fuel ih =>
    cases hpending : s.pending with
    | cons line rest =>
      rw [search_pending _ hpending] at hnone
      cases hnone
    | nil =>
      by_cases htask : s.task = .stop
      · rw [search_stop _ hpending htask]
        exact ⟨htask, hpending⟩
      rcases hmove : s.advance with ⟨t, _ | error⟩
      · rw [search_moved fuel hpending htask hmove] at hnone ⊢
        have hfunded := (funded_kept linked root).advance s funded
        have hleft := moves_advance s
        rw [hmove] at hfunded hleft
        exact ih hfunded (by rw [hleft, hmoves, Nat.add_sub_cancel]) hnone
      · rw [search_failed fuel hpending htask hmove] at hnone
        cases hnone

end Stream

end BoxTree
