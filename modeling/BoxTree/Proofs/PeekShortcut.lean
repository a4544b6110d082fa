import BoxTree.Proofs.CursorMoves
import BoxTree.Proofs.LimitedWalks

namespace BoxTree

/-!
# The peek is a shortcut

A cursor may tell whether there is a next sibling in any way that does not deny one, and may even promise one
that is not there. A walk of it yields the same.

* `Limited.Roaming` — a cursor with an honest peek that may climb as often as it likes.
* `Stream.advance_inside`, `Stream.next_inside` — every move and every call of `next` is that of the walk
  inside.
* `peek_is_a_shortcut` — so are all calls, all questions to the filter, and all places of the cursor.
-/

variable {κ : Type} [Cursor κ]

/-! ### Cursors that may climb as often as they like -/

namespace Limited

variable {c d : Limited κ}

/-- An honest peek, and no bound on the climbs. -/
structure Roaming (c : Limited κ) : Prop where
  unbounded : c.climbs = none
  peek : c.peek ≠ .fixed false

/-- A cursor that roams still does on the first child. -/
theorem Roaming.firstChild? (roaming : c.Roaming) (h : Cursor.firstChild? c = some d) : d.Roaming := by
  obtain ⟨child, -, rfl⟩ := Option.map_eq_some_iff.mp h
  exact ⟨roaming.unbounded, roaming.peek⟩

/-- A cursor that roams still does on the next sibling. -/
theorem Roaming.nextSibling? (roaming : c.Roaming) (h : Cursor.nextSibling? c = some d) :
    d.Roaming := by
  obtain ⟨next, -, rfl⟩ := Option.map_eq_some_iff.mp h
  exact ⟨roaming.unbounded, roaming.peek⟩

/-- A cursor that roams still does on the parent. -/
theorem Roaming.parent? (roaming : c.Roaming) (h : Cursor.parent? c = some d) : d.Roaming := by
  have hparent : Cursor.parent? c = Limited.parent? c := rfl
  unfold Limited.parent? at hparent
  rw [hparent, roaming.unbounded] at h
  obtain ⟨above, -, rfl⟩ := Option.map_eq_some_iff.mp h
  exact ⟨rfl, roaming.peek⟩

/-- Climbs of a cursor without a bound are those of the cursor inside. -/
theorem Roaming.climb_inner (roaming : c.Roaming) (n : Nat) :
    (Cursor.climb n c).inner = Cursor.climb n c.inner := by
  induction n generalizing c with
  | zero => rfl
  | succ n ih =>
    have hparent := parent?_inner (c := c) (by simp [roaming.unbounded])
    rw [Cursor.climb, Cursor.climb, ← hparent]
    cases habove : Cursor.parent? c with
    | none => exact ih roaming
    | some above => exact ih (roaming.parent? habove)

end Limited

namespace Stream

variable {s : Stream (Limited κ)}

/-- A cursor that roams does so for a whole walk. -/
theorem roaming_kept : Kept fun s : Stream (Limited κ) => s.cursor.Roaming :=
  cursor_kept (fun _ _ roaming => roaming.firstChild?) (fun _ _ roaming => roaming.nextSibling?)
    fun _ _ roaming => roaming.parent?

/-! ### The walk of such a cursor -/

/-- A walk that is given up leaves the cursor inside where it would be without the wrapper. -/
theorem checked_inside {move : Stream (Limited κ) × Option Error}
    (roaming : move.2 ≠ none → move.1.cursor.Roaming) :
    checked (moveInside move) = moveInside (checked move) := by
  obtain ⟨t, _ | error⟩ := move
  · rfl
  · have hfinish : t.finish.inner = t.inside.finish := (roaming (by simp)).climb_inner _
    show (t.inside.abandon, some error) = (t.abandon.inside, some error)
    unfold abandon
    rw [← hfinish]
    rfl

/-- **Every move** is that of the walk inside. -/
theorem advance_inside (truthful : ∀ c : κ, Cursor.Honest c) (roaming : s.cursor.Roaming) :
    s.inside.advance = moveInside s.advance := by
  cases htask : s.task with
  | visit =>
    have hmove := visit_inside (s := { s with moves := s.moves - 1 })
      (Limited.honest (truthful _) roaming.peek) (truthful _)
    rw [advance_visit htask, advance_visit (s := s.inside) htask]
    refine (congrArg checked hmove).trans (checked_inside fun hfailed => ?_)
    -- A node that cannot be taken is not left.
    obtain ⟨t, spot, h | ⟨error, h⟩ | ⟨child, -, h⟩⟩ :=
      (visited { s with moves := s.moves - 1 }).spot <;> rw [h] at hfailed ⊢
    · exact absurd rfl hfailed
    · rw [spot.cursor]
      exact roaming
    · exact absurd rfl hfailed
  | onward =>
    have hmove := onward_inside (s := { s with moves := s.moves - 1 })
      fun hzero => absurd (roaming.unbounded.symm.trans hzero) (by simp)
    rw [advance_onward htask, advance_onward (s := s.inside) htask]
    refine (congrArg checked hmove).trans (checked_inside fun hfailed => ?_)
    have hleft := left { s with moves := s.moves - 1 }
    generalize onward { s with moves := s.moves - 1 } = result at hleft hfailed ⊢
    cases hleft with
    | strayed => exact roaming
    | ended | toSibling | toParent => exact absurd rfl hfailed
  | stop =>
    rw [advance_stop htask, advance_stop (s := s.inside) htask]
    rfl

/-- **Every search** finds what the walk inside finds. -/
theorem search_inside (truthful : ∀ c : κ, Cursor.Honest c) (fuel : Nat) (roaming : s.cursor.Roaming) :
    search fuel s.inside = ((search fuel s).1, (search fuel s).2.inside) := by
  induction fuel generalizing s with
  | zero =>
    cases hpending : s.pending with
    | nil => rw [search_zero hpending, search_zero (s := s.inside) hpending]
    | cons line rest =>
      rw [search_pending 0 hpending, search_pending (s := s.inside) 0 hpending]
      rfl
  | succ fuel ih =>
    cases hpending : s.pending with
    | cons line rest =>
      rw [search_pending _ hpending, search_pending (s := s.inside) _ hpending]
      rfl
    | nil =>
      by_cases htask : s.task = .stop
      · rw [search_stop _ hpending htask, search_stop (s := s.inside) _ hpending htask]
      · have hinside := advance_inside truthful roaming
        have hroaming := roaming_kept.advance s roaming
        rcases hmove : s.advance with ⟨t, _ | error⟩ <;> rw [hmove] at hinside hroaming
        · rw [search_moved fuel hpending htask hmove,
            search_moved (s := s.inside) fuel hpending htask hinside]
          exact ih hroaming
        · rw [search_failed fuel hpending htask hmove,
            search_failed (s := s.inside) fuel hpending htask hinside]

/-- A call of `next` answers as the walk inside does. -/
theorem next_inside (truthful : ∀ c : κ, Cursor.Honest c) (roaming : s.cursor.Roaming) :
    s.inside.next = (s.next.1, s.next.2.inside) :=
  search_inside truthful s.moves roaming

/-- **Every call** answers what the walk inside answers. -/
theorem pulls_inside (truthful : ∀ c : κ, Cursor.Honest c) (n : Nat) (roaming : s.cursor.Roaming) :
    s.inside.pulls n = s.pulls n ∧ s.inside.after n = (s.after n).inside := by
  induction n generalizing s with
  | zero => exact ⟨rfl, rfl⟩
  | succ n ih =>
    have hnext := next_inside truthful roaming
    obtain ⟨hpulls, hafter⟩ := ih (search_keeps roaming_kept s.moves roaming)
    rw [pulls, pulls, after, after, hnext]
    exact ⟨congrArg (_ :: ·) hpulls, hafter⟩

end Stream

/-- **The peek is a shortcut.** Let a cursor peek by its own means, or by trying to move, or promise a sibling
    every time; only a cursor that denies every sibling is left out. The calls of `next` answer with the same
    lines and the same error, and after any number of them the filter has been asked about the same nodes in
    the same order, the cursor stands on the same node, and leaving the walk leads to the same node. -/
theorem peek_is_a_shortcut (forest : Forest) (root : Nat) (source : String) (theme : Theme)
    (filter : Filter) {peek : Peek} (honest : peek ≠ .fixed false) :
    let plain := Stream.start (⟨forest, root⟩ : Place) source theme filter
    let peeking := Stream.start ({ inner := ⟨forest, root⟩, peek } : Limited Place) source theme filter
    ∀ n, peeking.pulls n = plain.pulls n ∧
      (peeking.after n).asked.map Limited.inner = (plain.after n).asked ∧
      (peeking.after n).cursor.inner = (plain.after n).cursor ∧
      (peeking.after n).finish.inner = (plain.after n).finish := by
  intro plain peeking n
  have roaming : peeking.cursor.Roaming := ⟨rfl, honest⟩
  have hinside : peeking.inside = plain := rfl
  obtain ⟨hpulls, hafter⟩ := Stream.pulls_inside Place.honest n roaming
  have hroaming := Stream.after_keeps Stream.roaming_kept n roaming
  rw [hinside] at hpulls hafter
  rw [hafter]
  exact ⟨hpulls.symm, rfl, rfl, hroaming.climb_inner _⟩

/-- With a cursor that promises a sibling behind the last one, too. -/
theorem eager_peek_on_sapling :
    let plain := Stream.start (⟨.sapling, 0⟩ : Place) "xy" .terminal (Filter.ofSequence [.shown, .hidden])
    let peeking := Stream.start ({ inner := ⟨.sapling, 0⟩, peek := .fixed true } : Limited Place) "xy"
      .terminal (Filter.ofSequence [.shown, .hidden])
    Peek.fixed true ≠ .fixed false ∧
      ∀ n, peeking.pulls n = plain.pulls n ∧
        (peeking.after n).asked.map Limited.inner = (plain.after n).asked ∧
        (peeking.after n).cursor.inner = (plain.after n).cursor ∧
        (peeking.after n).finish.inner = (plain.after n).finish :=
  ⟨by decide, peek_is_a_shortcut .sapling 0 "xy" .terminal (Filter.ofSequence [.shown, .hidden])
    (by decide)⟩

/-- A cursor that denies every sibling has "Left" drawn as the last child. -/
example :
    ((Stream.start ({ inner := ⟨.sapling, 0⟩, peek := .fixed false } : Limited Place) "xy" .terminal
      .all).pulls 3).map (fun answer => answer.map fun line => line.toOption.map Line.plain) =
      [some (some "Pair:"), some (some "└╴Left:"), some (some "  └╴Leaf: x")] := by
  decide +kernel

end BoxTree
