import BoxTree.Proofs.StreamLevels

namespace BoxTree

/-!
# Walks of limited cursors

A limited cursor is a cursor with a wrapper around it, and a walk of it is a walk of the cursor inside, as
long as the wrapper lets it climb and does not deny a sibling that is there.

* `Cursor.Honest` — the peek never denies a sibling that is there.
* `Stream.lookAhead_eq` — then the peek only saves a look at siblings that are not there.
* `Stream.inside` — the walk of the cursor inside.
* `Stream.visit_inside`, `Stream.onward_inside` — the moves of a walk are those of the walk inside.
-/

variable {κ : Type} [Cursor κ]

/-! ### Cursors -/

namespace Cursor

/-- The peek never denies a next sibling that is there. It may promise one that is not. -/
def Honest (c : κ) : Prop := hasNextSibling c = false → nextSibling? c = none

/-- Where there is no next sibling, none are behind. -/
theorem following_of_none {c : κ} (h : nextSibling? c = none) : following c = [] := by
  unfold following
  cases extent c with
  | zero => rfl
  | succ n => rw [followingUpTo, h]

end Cursor

/-- The peek of a place tells the truth. -/
theorem Place.honest (place : Place) : Cursor.Honest place := by
  intro h
  rw [Place.hasNextSibling_eq] at h
  rw [Place.nextSibling?_eq_none]
  simpa using h

namespace Limited

variable {c child next above : Limited κ}

/-- A wrapper that does not always answer "no" is as honest as the cursor inside. -/
theorem honest (inner : Cursor.Honest c.inner) (peek : c.peek ≠ .fixed false) : Cursor.Honest c := by
  intro h
  show (Cursor.nextSibling? c.inner).map _ = none
  rw [Option.map_eq_none_iff]
  unfold Cursor.hasNextSibling instCursor at h
  dsimp only at h
  split at h
  · exact inner h
  · simpa using h
  · next hfixed =>
    rw [hfixed, h] at peek
    exact absurd rfl peek

/-- A limited cursor goes on to the siblings that the cursor inside goes on to. -/
theorem nextSibling?_inner (c : Limited κ) :
    (Cursor.nextSibling? c).map inner = Cursor.nextSibling? c.inner := by
  show ((Cursor.nextSibling? c.inner).map _).map _ = _
  cases Cursor.nextSibling? c.inner <;> rfl

/-- Up to any number, the siblings behind a limited cursor are those behind the cursor inside. -/
theorem followingUpTo_inner (n : Nat) (c : Limited κ) :
    (Cursor.followingUpTo n c).map inner = Cursor.followingUpTo n c.inner := by
  induction n generalizing c with
  | zero => rfl
  | succ n ih =>
    have hnext : Cursor.nextSibling? c =
        (Cursor.nextSibling? c.inner).map fun next => { c with inner := next } := rfl
    rw [Cursor.followingUpTo, Cursor.followingUpTo, hnext]
    cases Cursor.nextSibling? c.inner with
    | none => rfl
    | some next => exact congrArg (_ :: ·) (ih { c with inner := next })

/-- The siblings behind a limited cursor are those behind the cursor inside. -/
theorem following_inner (c : Limited κ) :
    (Cursor.following c).map inner = Cursor.following c.inner :=
  followingUpTo_inner _ c

/-- A limited cursor that may still climb climbs as the cursor inside does. -/
theorem parent?_inner (h : c.climbs ≠ some 0) :
    (Cursor.parent? c).map inner = Cursor.parent? c.inner := by
  show (parent? c).map inner = _
  unfold parent?
  split
  · cases Cursor.parent? c.inner <;> rfl
  · next hzero => exact absurd hzero h
  · cases Cursor.parent? c.inner <;> rfl

end Limited

namespace Stream

/-! ### Looking ahead -/

section LookAhead

variable {s : Stream κ}

/-- **The peek is a shortcut.** Without it, the walk asks about the siblings behind those decided already,
    of which there are none where the peek says so. -/
theorem lookAhead_eq (honest : Cursor.Honest s.cursor) :
    s.lookAhead =
      match s.levels with
      | [] => s
      | level :: outer =>
        let (more, asked) :=
          if level.showsMore then ([], s.asked)
          else askUntilShown s.filter ((Cursor.following s.cursor).drop level.ahead.length) s.asked
        { s with
          levels := ⟨!Level.showsMore { ahead := level.ahead ++ more }, false, level.ahead ++ more⟩ :: outer
          asked } := by
  unfold lookAhead
  cases s.levels with
  | nil => rfl
  | cons level outer =>
    dsimp only
    cases hmore : level.showsMore with
    | true => simp
    | false =>
      by_cases hskip : level.ahead.isEmpty && !Cursor.hasNextSibling s.cursor
      · obtain ⟨hempty, hnone⟩ := Bool.and_eq_true_iff.mp hskip
        have hfollowing := Cursor.following_of_none (honest (by simpa using hnone))
        simp [hskip, hfollowing, askUntilShown]
      · simp [hskip]

end LookAhead

/-! ### The walk inside -/

variable {s t : Stream (Limited κ)}

/-- The walk of the cursor inside. -/
def inside (s : Stream (Limited κ)) : Stream κ where
  cursor := s.cursor.inner
  source := s.source
  theme := s.theme
  filter := s.filter
  task := s.task
  levels := s.levels
  pending := s.pending
  asked := s.asked.map Limited.inner
  moves := s.moves

/-- What a move comes to for the cursor inside. -/
def moveInside (move : Stream (Limited κ) × Option Error) : Stream κ × Option Error :=
  (move.1.inside, move.2)

/-- The filter is told of the same nodes. -/
theorem ask_inside (filter : Filter) (asked : List (Limited κ)) (place : Limited κ) :
    ask filter (asked.map Limited.inner) place.inner = ask filter asked place := by
  unfold ask
  rw [List.map_map]
  rfl

/-- Questions about the cursors inside get the same answers, and stop at the same one. -/
theorem askUntilShown_inside (filter : Filter) (places asked : List (Limited κ)) :
    askUntilShown filter (places.map Limited.inner) (asked.map Limited.inner) =
      ((askUntilShown filter places asked).1, (askUntilShown filter places asked).2.map Limited.inner) := by
  induction places generalizing asked with
  | nil => rfl
  | cons place rest ih =>
    rw [List.map_cons, askUntilShown, askUntilShown, ask_inside]
    cases ask filter asked place with
    | hidden =>
      have hrest := ih (place :: asked)
      rw [List.map_cons] at hrest
      simp only [hrest]
    | shown | collapsed => rfl

/-- The walk inside decides the same. -/
theorem decide_inside (s : Stream (Limited κ)) :
    s.inside.decide = (s.decide.1, s.decide.2.inside) := by
  obtain ⟨cursor, _, _, filter, _, levels, _, asked, _⟩ := s
  have hask := ask_inside filter asked cursor
  match levels with
  | ⟨_, _, _ :: _⟩ :: _ => rfl
  | [] | ⟨_, _, []⟩ :: _ =>
    unfold Stream.decide inside
    dsimp only
    rw [hask, List.map_cons]

/-- The walk inside looks as far ahead, if neither of the two peeks denies a sibling that is there. -/
theorem lookAhead_inside (honest : Cursor.Honest s.cursor) (inner : Cursor.Honest s.cursor.inner) :
    s.lookAhead.inside = s.inside.lookAhead := by
  have hinside : Cursor.Honest s.inside.cursor := inner
  rw [lookAhead_eq honest, lookAhead_eq hinside]
  obtain ⟨cursor, _, _, filter, _, levels, _, asked, _⟩ := s
  cases levels with
  | nil => rfl
  | cons level outer =>
    have hasked := askUntilShown_inside filter
      ((Cursor.following cursor).drop level.ahead.length) asked
    rw [List.map_drop, Limited.following_inner] at hasked
    unfold inside
    dsimp only
    rw [hasked]
    cases level.showsMore <;> rfl

/-- The walk inside draws the same lines, and goes down to the same child. -/
theorem present_inside (s : Stream (Limited κ)) : s.inside.present = moveInside s.present := by
  have hchild : Cursor.firstChild? s.cursor =
      (Cursor.firstChild? s.cursor.inner).map fun child => { s.cursor with inner := child } := rfl
  have hinside : Cursor.firstChild? s.inside.cursor = Cursor.firstChild? s.cursor.inner := rfl
  have hlabel : Cursor.label s.inside.cursor = Cursor.label s.cursor := rfl
  have hsource : s.inside.source = s.source := rfl
  unfold present
  rw [hlabel, hinside, hsource, hchild]
  cases Cursor.firstChild? s.cursor.inner with
  | some child => rfl
  | none =>
    dsimp only [Option.map_none]
    cases Text.slice s.source (Cursor.label s.cursor).start (Cursor.label s.cursor).stop <;> rfl

/-- **A node is taken** as the walk inside takes it. -/
theorem visit_inside (honest : Cursor.Honest s.cursor) (inner : Cursor.Honest s.cursor.inner) :
    s.inside.visit = moveInside s.visit := by
  have hspot := sameSpot_decide s
  unfold visit
  rw [decide_inside]
  rcases hd : s.decide with ⟨_ | _ | _, t⟩ <;> rw [hd] at hspot <;> dsimp only
  · rfl
  · rw [← lookAhead_inside (by rwa [hspot.cursor]) (by rwa [hspot.cursor]), present_inside]
  · rw [← lookAhead_inside (by rwa [hspot.cursor]) (by rwa [hspot.cursor])]
    rfl

/-- **A node is left** as the walk inside leaves it, unless a climb is due and none is left. -/
theorem onward_inside
    (free : s.cursor.climbs = some 0 → s.levels ≠ [] → Cursor.nextSibling? s.cursor.inner ≠ none) :
    s.inside.onward = moveInside s.onward := by
  have hnext : Cursor.nextSibling? s.cursor =
      (Cursor.nextSibling? s.cursor.inner).map fun next => { s.cursor with inner := next } := rfl
  have hlevels : s.inside.levels = s.levels := rfl
  have hcursor : s.inside.cursor = s.cursor.inner := rfl
  unfold onward
  rw [hlevels, hcursor, hnext]
  cases h : s.levels with
  | nil => rfl
  | cons level outer =>
    dsimp only
    cases hbeside : Cursor.nextSibling? s.cursor.inner with
    | some next => rfl
    | none =>
      have hclimbs : s.cursor.climbs ≠ some 0 := fun hzero => free hzero (by simp [h]) hbeside
      rw [← Limited.parent?_inner hclimbs]
      dsimp only [Option.map_none]
      cases Cursor.parent? s.cursor <;> rfl

end Stream

end BoxTree
