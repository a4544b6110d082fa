import BoxTree.Proofs.StreamMoves
import BoxTree.Proofs.TreeOfForest
import BoxTree.Render

namespace BoxTree

/-!
# The cursor returns

A walk moves its cursor, but never out of the tree it was started on, and always knows the way back.

* `Stream.Below` — the cursor is as many parents below the start as the walk has levels.
* `Stream.below_kept` — every move keeps that.
* `Stream.Below.finish_eq` — climbing out of all levels leads to the start.
* `cursor_stays_below_and_returns` — the same for every moment of a walk, and for every rendering,
  however it ends.
-/

namespace Place

/-- Climbing goes through the ancestors. -/
theorem climb_eq {forest : Forest} {n id above : Nat} (h : forest.ancestor? n id = some above) :
    Cursor.climb n (⟨forest, id⟩ : Place) = ⟨forest, above⟩ := by
  induction n generalizing id with
  | zero =>
    obtain rfl := Option.some.inj h
    rfl
  | succ n ih =>
    obtain ⟨parent, hparent, hrest⟩ := Option.bind_eq_some_iff.mp h
    rw [Cursor.climb, parent?_eq, hparent]
    exact ih hrest

/-- Climbing stays in the forest. -/
theorem forest_climb (n : Nat) (place : Place) : (Cursor.climb n place).forest = place.forest := by
  induction n generalizing place with
  | zero => rfl
  | succ n ih =>
    rw [Cursor.climb, ih, parent?_eq]
    cases place.forest.parent? place.id <;> rfl

end Place

namespace Stream

variable {forest : Forest} {root : Nat} {s t : Stream Place}

/-- The cursor is in the forest, as many parents below the start as there are levels. -/
structure Below (forest : Forest) (root : Nat) (s : Stream Place) : Prop where
  inForest : s.cursor.forest = forest
  depth : forest.ancestor? s.levels.length s.cursor.id = some root

theorem below_start (forest : Forest) (root : Nat) (source : String) (theme : Theme)
    (filter : Filter) : Below forest root (start ⟨forest, root⟩ source theme filter) :=
  ⟨rfl, rfl⟩

/-- Climbing out of all levels leads to the start. -/
theorem Below.finish_eq (below : Below forest root s) : s.finish = ⟨forest, root⟩ := by
  have hcursor : s.cursor = ⟨forest, s.cursor.id⟩ := by rw [← below.inForest]
  rw [finish, hcursor]
  exact Place.climb_eq below.depth

theorem Below.of_sameSpot (below : Below forest root s) (spot : SameSpot s t) :
    Below forest root t := by
  refine ⟨by rw [spot.cursor]; exact below.inForest, ?_⟩
  rw [spot.cursor, spot.depth]
  exact below.depth

/-- A walk that is given up stands on the start. -/
theorem Below.abandon (below : Below forest root s) : Below forest root s.abandon := by
  have hcursor : s.abandon.cursor = ⟨forest, root⟩ := below.finish_eq
  refine ⟨by rw [hcursor], ?_⟩
  rw [hcursor]
  rfl

/-- Taking a node goes nowhere or to the first child, one level deeper. -/
theorem Below.visit (linked : forest.Linked) (below : Below forest root s) :
    Below forest root (checked s.visit).1 := by
  obtain ⟨t, spot, h | ⟨error, h⟩ | ⟨child, hchild, h⟩⟩ := (visited s).spot <;> rw [h]
  · have ht := below.of_sameSpot spot
    exact ⟨ht.inForest, ht.depth⟩
  · exact (below.of_sameSpot spot).abandon
  · have hcursor : s.cursor = ⟨forest, s.cursor.id⟩ := by rw [← below.inForest]
    rw [hcursor] at hchild
    obtain ⟨first, rest, rfl, -, hparent, -⟩ := Place.firstChild?_eq_some linked hchild
    refine ⟨rfl, ?_⟩
    show forest.ancestor? (t.levels.length + 1) first = some root
    rw [Forest.ancestor?_succ hparent, spot.depth]
    exact below.depth

/-- Going on stays on the same depth or leaves one level towards the parent. A node inside of a level
    always has a parent. -/
theorem Below.onward (linked : forest.Linked) (below : Below forest root s) :
    Below forest root (checked s.onward).1 := by
  have hcursor : s.cursor = ⟨forest, s.cursor.id⟩ := by rw [← below.inForest]
  -- Inside of a level the climb to the start has a first step.
  have hinside : ∀ level outer, s.levels = level :: outer →
      ∃ above, forest.parent? s.cursor.id = some above ∧
        forest.ancestor? outer.length above = some root := by
    intro level outer hlevels
    have hdepth := below.depth
    rw [hlevels] at hdepth
    exact Option.bind_eq_some_iff.mp hdepth
  have hleft := left s
  generalize s.onward = result at hleft ⊢
  cases hleft with
  | ended => exact ⟨below.inForest, below.depth⟩
  | toSibling hlevels hnext =>
    obtain ⟨above, habove, hrest⟩ := hinside _ _ hlevels
    rw [hcursor] at hnext
    obtain ⟨sibling, rest, rfl, -, hparent, -⟩ := Place.nextSibling?_eq_some linked hnext
    refine ⟨rfl, ?_⟩
    show forest.ancestor? s.levels.length sibling = some root
    rw [hlevels, List.length_cons, Forest.ancestor?, hparent, habove]
    exact hrest
  | toParent hlevels _ hparent =>
    obtain ⟨above, habove, hrest⟩ := hinside _ _ hlevels
    rw [hcursor, Place.parent?_eq, habove] at hparent
    obtain rfl := Option.some.inj hparent
    exact ⟨rfl, hrest⟩
  -- That there is no parent contradicts the climb to the start.
  | strayed hlevels _ hparent =>
    obtain ⟨above, habove, -⟩ := hinside _ _ hlevels
    rw [hcursor, Place.parent?_eq, habove] at hparent
    cases hparent

/-- **Every move keeps the cursor below the start**, as deep as there are levels. -/
theorem below_kept (linked : forest.Linked) (root : Nat) : Kept (Below forest root) where
  pending _ _ below := ⟨below.inForest, below.depth⟩
  advance s below := by
    have hcounted : Below forest root { s with moves := s.moves - 1 } := ⟨below.inForest, below.depth⟩
    cases htask : s.task with
    | visit => rw [advance_visit htask]; exact hcounted.visit linked
    | onward => rw [advance_onward htask]; exact hcounted.onward linked
    | stop => rw [advance_stop htask]; exact hcounted

end Stream

/-- After handing lines over to whatever function, the cursor can be brought back. -/
theorem Stream.Below.finish_consume {forest : Forest} {root : Nat} {s : Stream Place} {α : Type}
    (linked : forest.Linked) (below : Below forest root s) (take : α → Line → α × Option Error)
    (acc : α) : (s.consume take acc).2.2.finish = ⟨forest, root⟩ :=
  (consume_keeps take (below_kept linked root) acc below).finish_eq

/-- A rendering ends with the cursor of the walk that it consumed, in one call or line by line. -/
theorem render_cursor {κ : Type} [Cursor κ] (settings : Settings) (options : Options)
    (source : String) (cursor : κ) :
    ∃ take : Progress → Line → Progress × Option Error, ∃ progress,
      (render settings options source cursor).cursor =
        ((walk settings options source cursor).consume take progress).2.2.finish := by
  unfold render
  dsimp only
  -- Line by line there is one walk; in one call its outcome decides on the flush.
  split
  · exact ⟨_, _, rfl⟩
  · split
    · next hall => exact ⟨_, _, congrArg (fun result => result.2.2.finish) hall.symm⟩
    · next hall => exact ⟨_, _, congrArg (fun result => result.2.2.finish) hall.symm⟩

/-- **The cursor returns.** At every moment of a walk (after `k` lines and `m` more moves) the cursor
    is as many parents below the start as there are levels, and leaving the walk leads back to the
    start. So every rendering leaves the cursor where it was, whether it succeeds, fails on the
    source or on the surface. -/
theorem cursor_stays_below_and_returns {forest : Forest} (grown : forest.Grown) (root : Nat) :
    (∀ source theme filter k m,
      let stream := ((Stream.start (⟨forest, root⟩ : Place) source theme filter).after k).moved m
      stream.cursor.forest = forest ∧
        forest.ancestor? stream.levels.length stream.cursor.id = some root ∧
        stream.finish = ⟨forest, root⟩) ∧
    ∀ settings options source,
      (render settings options source (⟨forest, root⟩ : Place)).cursor = ⟨forest, root⟩ ∧
        (renderText settings options source (⟨forest, root⟩ : Place)).2.1 = ⟨forest, root⟩ := by
  have linked := grown.linked
  constructor
  · intro source theme filter k m stream
    have below : Stream.Below forest root stream :=
      Stream.moved_keeps (Stream.below_kept linked root) m
        (Stream.after_keeps (Stream.below_kept linked root) k (Stream.below_start ..))
    exact ⟨below.inForest, below.depth, below.finish_eq⟩
  · intro settings options source
    have below := Stream.below_start forest root source
      (options.themeFor (options.platformIn settings)) options.filter
    obtain ⟨take, progress, hcursor⟩ := render_cursor settings options source (⟨forest, root⟩ : Place)
    exact ⟨hcursor.trans (below.finish_consume linked take progress),
      below.finish_consume linked _ _⟩

/-- Left after two lines and one more move, the cursor is brought back to where it started. -/
theorem cursor_of_sapling_returns :
    let stream := ((Stream.start (⟨.sapling, 0⟩ : Place) "xy" .terminal .all).after 2).moved 1
    Forest.sapling.Grown ∧
      Forest.sapling.ancestor? stream.levels.length stream.cursor.id = some 0 ∧
      stream.finish = ⟨.sapling, 0⟩ :=
  ⟨Forest.grown_sapling,
    ((cursor_stays_below_and_returns Forest.grown_sapling 0).1 "xy" .terminal .all 2 1).2⟩

end BoxTree
