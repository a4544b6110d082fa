import BoxTree.Proofs.StreamDecisions
import BoxTree.Syntax.Pruning

namespace BoxTree

/-!
# What the moves of a cursor keep

* `Stream.cursor_kept` — what the moves of a cursor keep holds of the cursor of a walk at any moment.
* `Stream.places_kept` — it holds of all places that the filter has been asked about, too.
* `Stream.follows_ofLabel` — hence a walk whose filter goes by label follows the decisions on the labels.
-/

variable {κ : Type} [Cursor κ]

/-- What the moves of a cursor keep, climbing keeps. -/
theorem Cursor.climb_keeps {motive : κ → Prop}
    (parent : ∀ c above, motive c → Cursor.parent? c = some above → motive above) (n : Nat) {c : κ}
    (h : motive c) : motive (Cursor.climb n c) := by
  induction n generalizing c with
  | zero => exact h
  | succ n ih =>
    rw [Cursor.climb]
    cases hparent : Cursor.parent? c with
    | none => exact ih h
    | some above => exact ih (parent c above h hparent)

/-- **What the moves of a cursor keep, a walk keeps.** -/
theorem Stream.cursor_kept {motive : κ → Prop}
    (child : ∀ c below, motive c → Cursor.firstChild? c = some below → motive below)
    (next : ∀ c beside, motive c → Cursor.nextSibling? c = some beside → motive beside)
    (parent : ∀ c above, motive c → Cursor.parent? c = some above → motive above) :
    Kept fun s : Stream κ => motive s.cursor where
  pending _ _ h := h
  advance s h := by
    have habandon : ∀ t : Stream κ, motive t.cursor → motive t.abandon.cursor :=
      fun t ht => Cursor.climb_keeps parent _ ht
    cases htask : s.task with
    | visit =>
      rw [advance_visit htask]
      obtain ⟨t, spot, hmove | ⟨error, hmove⟩ | ⟨below, hchild, hmove⟩⟩ :=
        (visited { s with moves := s.moves - 1 }).spot <;> rw [hmove]
      · exact (congrArg motive spot.cursor).mpr h
      · exact habandon t ((congrArg motive spot.cursor).mpr h)
      · exact child _ _ h hchild
    | onward =>
      rw [advance_onward htask]
      have hleft := left { s with moves := s.moves - 1 }
      generalize onward { s with moves := s.moves - 1 } = result at hleft ⊢
      cases hleft with
      | ended => exact h
      | toSibling _ hnext => exact next _ _ h hnext
      | toParent _ _ hparent => exact parent _ _ h hparent
      | strayed => exact habandon _ h
    | stop =>
      rw [advance_stop htask]
      exact h

/-! ### The places that are asked about -/

section Places

variable {motive : κ → Prop}
  (next : ∀ c beside, motive c → Cursor.nextSibling? c = some beside → motive beside)

include next

/-- What going on to the next sibling keeps holds of all siblings behind a place. -/
theorem Cursor.following_keeps {c place : κ} (h : motive c) (hplace : place ∈ Cursor.following c) :
    motive place := by
  unfold Cursor.following at hplace
  generalize Cursor.extent c = n at hplace
  induction n generalizing c with
  | zero => cases hplace
  | succ n ih =>
    rw [Cursor.followingUpTo] at hplace
    cases hnext : Cursor.nextSibling? c with
    | none =>
      rw [hnext] at hplace
      cases hplace
    | some beside =>
      rw [hnext] at hplace
      have hbeside := next c beside h hnext
      obtain rfl | hrest := List.mem_cons.mp hplace
      · exact hbeside
      · exact ih hbeside hrest

/-- Looking ahead asks about siblings only, so what going on keeps holds of the places asked about. -/
theorem Stream.lookAhead_places {s : Stream κ} (h : motive s.cursor)
    (asked : ∀ place ∈ s.asked, motive place) : ∀ place ∈ s.lookAhead.asked, motive place := by
  unfold lookAhead
  split
  · exact asked
  · next level outer hlevels =>
    dsimp only
    split
    · exact asked
    · obtain ⟨hasked, -⟩ := askUntilShown_spec s.filter
        ((Cursor.following s.cursor).drop level.ahead.length) s.asked
      intro place hplace
      rw [hasked, List.mem_append, List.mem_reverse] at hplace
      obtain hplace | hplace := hplace
      · exact Cursor.following_keeps next h (List.mem_of_mem_drop (List.mem_of_mem_take hplace))
      · exact asked place hplace

end Places

/-- A decision asks about the place of the cursor, if about any. -/
theorem Stream.decide_places {motive : κ → Prop} {s : Stream κ} (h : motive s.cursor)
    (asked : ∀ place ∈ s.asked, motive place) : ∀ place ∈ s.decide.2.asked, motive place := by
  unfold decide
  split
  · exact asked
  · exact List.forall_mem_cons.mpr ⟨h, asked⟩

/-- Taking a node asks about the node and its siblings. -/
theorem Stream.visit_places {motive : κ → Prop}
    (next : ∀ c beside, motive c → Cursor.nextSibling? c = some beside → motive beside) {s : Stream κ}
    (h : motive s.cursor) (asked : ∀ place ∈ s.asked, motive place) :
    ∀ place ∈ s.visit.1.asked, motive place := by
  have hdecided := decide_places h asked
  have hsame : motive s.decide.2.cursor := by rwa [(sameSpot_decide s).cursor]
  have hlooked := lookAhead_places next hsame hdecided
  have hvisited := visited s
  generalize s.visit = result at hvisited ⊢
  cases hvisited with
  | hidden hd =>
    rw [hd] at hdecided
    exact hdecided
  | collapsed hd | entered hd _ | read hd _ _ | unreadable hd _ _ =>
    rw [hd] at hlooked
    exact hlooked

/-- Leaving a node asks about nothing. -/
theorem Stream.onward_asked (s : Stream κ) : s.onward.1.asked = s.asked := by
  have hleft := left s
  generalize s.onward = result at hleft ⊢
  cases hleft <;> rfl

/-- Giving up after a failure asks about nothing. -/
theorem Stream.checked_asked (move : Stream κ × Option Error) : (checked move).1.asked = move.1.asked := by
  obtain ⟨t, _ | error⟩ := move <;> rfl

/-- **What the moves of a cursor keep holds of all places that are asked about.** -/
theorem Stream.places_kept {motive : κ → Prop}
    (child : ∀ c below, motive c → Cursor.firstChild? c = some below → motive below)
    (next : ∀ c beside, motive c → Cursor.nextSibling? c = some beside → motive beside)
    (parent : ∀ c above, motive c → Cursor.parent? c = some above → motive above) :
    Kept fun s : Stream κ => motive s.cursor ∧ ∀ place ∈ s.asked, motive place where
  pending _ _ h := h
  advance s h := by
    refine ⟨(cursor_kept child next parent).advance s h.1, ?_⟩
    cases htask : s.task with
    | visit =>
      rw [advance_visit htask, checked_asked]
      exact visit_places next h.1 h.2
    | onward =>
      rw [advance_onward htask, checked_asked, onward_asked]
      exact h.2
    | stop =>
      rw [advance_stop htask]
      exact h.2

/-! ### Filters that go by label -/

namespace Stream

variable {forest : Forest}

/-- A walk of a forest asks about places in the forest. -/
theorem forest_kept (forest : Forest) :
    Kept fun s : Stream Place => s.cursor.forest = forest ∧ ∀ place ∈ s.asked, place.forest = forest := by
  refine places_kept (motive := fun place : Place => place.forest = forest) ?_ ?_ ?_
  all_goals
    intro place other h hmove
    obtain ⟨id, -, rfl⟩ := Option.map_eq_some_iff.mp hmove
    exact h

/-- A filter that goes by label answers as it decides on the labels. -/
theorem answers_ofLabel (decide : Label → Visibility) {asked : List Place}
    (inForest : ∀ place ∈ asked, place.forest = forest) :
    ∀ answer ∈ answers (Filter.ofLabel decide) asked, forest.byLabel decide answer.1.id = answer.2 := by
  induction asked with
  | nil => simp [answers]
  | cons place earlier ih =>
    obtain ⟨rfl, hearlier⟩ := List.forall_mem_cons.mp inForest
    exact List.forall_mem_cons.mpr ⟨rfl, ih hearlier⟩

/-- **A walk whose filter goes by label** follows the decisions on the labels. -/
theorem follows_ofLabel (forest : Forest) (decide : Label → Visibility) (root : Nat) (source : String)
    (theme : Theme) :
    (start (⟨forest, root⟩ : Place) source theme (Filter.ofLabel decide)).Follows
      (forest.byLabel decide) := by
  intro n
  let s := start (⟨forest, root⟩ : Place) source theme (Filter.ofLabel decide)
  have hfilter : (s.after n).filter = Filter.ofLabel decide :=
    filter_of_settings (after_keeps (continues_kept s) n (Continues.refl s)).settings
  have hplaces := after_keeps (forest_kept forest) n (s := s) ⟨rfl, List.forall_mem_nil _⟩
  show ∀ answer ∈ answers (s.after n).filter (s.after n).asked, _
  rw [hfilter]
  exact answers_ofLabel decide hplaces.2

end Stream

end BoxTree
