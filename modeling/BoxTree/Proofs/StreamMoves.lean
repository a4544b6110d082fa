import BoxTree.Line.Stream
import Mathlib

namespace BoxTree

/-!
# The moves of a stream

What one move of a walk can do, and what it leaves alone, whatever the cursor.

* `Stream.SameSpot` — the cursor, the number of levels and the settings are as before; the filter may
  have been asked about more nodes.
* `Stream.Visited`, `Stream.Left` — the ways in which a move can end.
* `Stream.Continues` — a later moment of the same walk.
* `Stream.after_keeps`, `Stream.consume_keeps` — what moves and handed-over lines keep, a whole walk
  keeps.
-/

/-- Drawing lines neither opens nor closes a level. -/
theorem Level.length_draw (tree : Color) (levels : List Level) (lines : List Line) :
    (Level.draw tree levels lines).2.length = levels.length := by
  induction lines generalizing levels with
  | nil => rfl
  | cons line rest ih => rw [Level.draw, ih, List.length_map]

namespace Stream

variable {κ : Type} {s t u : Stream κ}

/-- What no move of a walk changes. -/
def settings (stream : Stream κ) : String × Theme × Filter :=
  (stream.source, stream.theme, stream.filter)

/-- Moments of one walk read the same source, draw in the same theme and ask the same filter. -/
theorem source_of_settings (h : t.settings = s.settings) : t.source = s.source := congrArg (·.1) h

theorem theme_of_settings (h : t.settings = s.settings) : t.theme = s.theme := congrArg (·.2.1) h

theorem filter_of_settings (h : t.settings = s.settings) : t.filter = s.filter := congrArg (·.2.2) h

/-- The same node, as deep below the start, and no move made; the filter may have been asked more. -/
structure SameSpot (s t : Stream κ) : Prop where
  cursor : t.cursor = s.cursor
  depth : t.levels.length = s.levels.length
  settings : t.settings = s.settings
  moves : t.moves = s.moves
  asked : s.asked <:+ t.asked

theorem SameSpot.refl (s : Stream κ) : SameSpot s s := ⟨rfl, rfl, rfl, rfl, List.suffix_rfl⟩

/-- What stays on the spot twice stays there. -/
theorem SameSpot.trans (first : SameSpot s t) (second : SameSpot t u) : SameSpot s u where
  cursor := second.cursor.trans first.cursor
  depth := second.depth.trans first.depth
  settings := second.settings.trans first.settings
  moves := second.moves.trans first.moves
  asked := first.asked.trans second.asked

/-- A later moment of the same walk: the settings are the same, and the filter has been asked at
    least as much. -/
structure Continues (s t : Stream κ) : Prop where
  settings : t.settings = s.settings
  asked : s.asked <:+ t.asked

theorem Continues.refl (s : Stream κ) : Continues s s := ⟨rfl, List.suffix_rfl⟩

/-- Later moments follow one another. -/
theorem Continues.trans (first : Continues s t) (second : Continues t u) : Continues s u :=
  ⟨second.settings.trans first.settings, first.asked.trans second.asked⟩

/-- Lines are drawn on the spot: only the marks inside the levels change. -/
theorem sameSpot_draw (s : Stream κ) (lines : List Line) : SameSpot s (s.draw lines) :=
  ⟨rfl, Level.length_draw _ _ _, rfl, rfl, List.suffix_rfl⟩

variable [Cursor κ]

/-! ### Decisions stay on the spot -/

/-- Questions are put on top of those asked before, none of which is lost. -/
theorem askUntilShown_suffix (filter : Filter) (places asked : List κ) :
    asked <:+ (askUntilShown filter places asked).2 := by
  induction places generalizing asked with
  | nil => exact List.suffix_rfl
  | cons place rest ih =>
    rw [askUntilShown]
    split
    · exact (List.suffix_cons place asked).trans (ih _)
    · exact List.suffix_cons place asked

/-- A decision is taken on the spot, from the level or by one question. -/
theorem sameSpot_decide (s : Stream κ) : SameSpot s s.decide.2 := by
  unfold decide
  split
  · next h => exact ⟨rfl, by simp [h], rfl, rfl, List.suffix_rfl⟩
  · exact ⟨rfl, rfl, rfl, rfl, List.suffix_cons _ _⟩

/-- Looking ahead stays on the spot, however many siblings it asks about. -/
theorem sameSpot_lookAhead (s : Stream κ) : SameSpot s s.lookAhead := by
  unfold lookAhead
  split
  · exact SameSpot.refl s
  · next level outer h =>
    dsimp only
    split
    · exact ⟨rfl, by simp [h], rfl, rfl, List.suffix_rfl⟩
    · exact ⟨rfl, by simp [h], rfl, rfl, askUntilShown_suffix _ _ _⟩

/-! ### The ways in which a move can end -/

/-- The ways in which taking a node can end. -/
inductive Visited (s : Stream κ) : Stream κ × Option Error → Prop where
  | hidden {t : Stream κ} (decided : s.decide = (.hidden, t)) : Visited s ({ t with task := .onward }, none)
  | collapsed {t : Stream κ} (decided : s.decide = (.collapsed, t)) :
      Visited s
        ({ t.lookAhead.draw [collapsedLine s.theme (Cursor.label s.cursor).name] with
            task := .onward }, none)
  | entered {t : Stream κ} {child : κ} (decided : s.decide = (.shown, t))
      (below : Cursor.firstChild? s.cursor = some child) :
      Visited s
        ({ t.lookAhead.draw [openLine s.theme (Cursor.label s.cursor).name] with
            cursor := child
            levels := {} ::
              (t.lookAhead.draw [openLine s.theme (Cursor.label s.cursor).name]).levels
            task := .visit }, none)
  | read {t : Stream κ} {text : String} (decided : s.decide = (.shown, t))
      (below : Cursor.firstChild? s.cursor = none)
      (slice : Text.slice s.source (Cursor.label s.cursor).start (Cursor.label s.cursor).stop =
        .ok text) :
      Visited s
        ({ t.lookAhead.draw (childlessLines s.theme (Cursor.label s.cursor).name text) with
            task := .onward }, none)
  | unreadable {t : Stream κ} {error : Error} (decided : s.decide = (.shown, t))
      (below : Cursor.firstChild? s.cursor = none)
      (slice : Text.slice s.source (Cursor.label s.cursor).start (Cursor.label s.cursor).stop =
        .error error) :
      Visited s (t.lookAhead, some error)

/-- Taking a node ends in one of these ways. -/
theorem visited (s : Stream κ) : Visited s s.visit := by
  have hdecide := sameSpot_decide s
  unfold visit
  rcases hd : s.decide with ⟨_ | _ | _, t⟩ <;> rw [hd] at hdecide
  · exact .hidden hd
  -- Looking ahead changes neither the cursor nor the texts that are drawn from.
  · have hlook := hdecide.trans (sameSpot_lookAhead t)
    have htheme : t.lookAhead.theme = s.theme := theme_of_settings hlook.settings
    have hsource : t.lookAhead.source = s.source := source_of_settings hlook.settings
    dsimp only
    unfold present
    rw [hlook.cursor, htheme, hsource]
    cases hchild : Cursor.firstChild? s.cursor with
    | some child => exact .entered hd hchild
    | none =>
      dsimp only
      split
      · next hslice => exact .unreadable hd hchild hslice
      · next hslice => exact .read hd hchild hslice
  · have hlook := hdecide.trans (sameSpot_lookAhead t)
    have htheme : t.lookAhead.theme = s.theme := theme_of_settings hlook.settings
    dsimp only
    rw [hlook.cursor, htheme]
    exact .collapsed hd

/-- The ways in which going on from a node can end. -/
inductive Left (s : Stream κ) : Stream κ × Option Error → Prop where
  | ended (levels : s.levels = []) : Left s ({ s with task := .stop }, none)
  | toSibling {level : Level} {outer : List Level} {next : κ} (levels : s.levels = level :: outer)
      (beside : Cursor.nextSibling? s.cursor = some next) :
      Left s ({ s with cursor := next, task := .visit }, none)
  | toParent {level : Level} {outer : List Level} {parent : κ} (levels : s.levels = level :: outer)
      (beside : Cursor.nextSibling? s.cursor = none)
      (above : Cursor.parent? s.cursor = some parent) :
      Left s ({ s with cursor := parent, levels := outer }, none)
  | strayed {level : Level} {outer : List Level} (levels : s.levels = level :: outer)
      (beside : Cursor.nextSibling? s.cursor = none) (above : Cursor.parent? s.cursor = none) :
      Left s ({ s with levels := outer }, some (.strayCursor (Cursor.label s.cursor).name))

/-- Going on from a node ends in one of these ways. -/
theorem left (s : Stream κ) : Left s s.onward := by
  unfold onward
  cases hlevels : s.levels with
  | nil =>
    have hended := Left.ended hlevels
    rw [hlevels] at hended
    exact hended
  | cons level outer =>
    dsimp only
    cases hnext : Cursor.nextSibling? s.cursor with
    | some next =>
      have hbeside := Left.toSibling hlevels hnext
      rw [hlevels] at hbeside
      exact hbeside
    | none =>
      cases hparent : Cursor.parent? s.cursor with
      | some parent => exact .toParent hlevels hnext hparent
      | none => exact .strayed hlevels hnext hparent

/-- Taking a node is done with it or fails, and stays there, or goes to its first child one level
    deeper. -/
theorem Visited.spot {result : Stream κ × Option Error} (h : Visited s result) :
    ∃ t, SameSpot s t ∧
      (result = ({ t with task := .onward }, none) ∨ (∃ error, result = (t, some error)) ∨
        ∃ child, Cursor.firstChild? s.cursor = some child ∧
          result = ({ t with cursor := child, levels := {} :: t.levels, task := .visit }, none)) := by
  have hlook : ∀ decision t, s.decide = (decision, t) → SameSpot s t.lookAhead := by
    intro decision t hd
    have hdecide := sameSpot_decide s
    rw [hd] at hdecide
    exact hdecide.trans (sameSpot_lookAhead t)
  cases h with
  | @hidden t hd =>
    have hdecide := sameSpot_decide s
    rw [hd] at hdecide
    exact ⟨t, hdecide, .inl rfl⟩
  | collapsed hd => exact ⟨_, (hlook _ _ hd).trans (sameSpot_draw _ _), .inl rfl⟩
  | entered hd hchild =>
    exact ⟨_, (hlook _ _ hd).trans (sameSpot_draw _ _), .inr (.inr ⟨_, hchild, rfl⟩)⟩
  | read hd _ _ => exact ⟨_, (hlook _ _ hd).trans (sameSpot_draw _ _), .inl rfl⟩
  | unreadable hd _ _ => exact ⟨_, hlook _ _ hd, .inr (.inl ⟨_, rfl⟩)⟩

/-- The end of a move: one that fails gives up the walk. -/
def checked : Stream κ × Option Error → Stream κ × Option Error
  | (stream, none) => (stream, none)
  | (stream, some error) => (stream.abandon, some error)

/-- A move of a walk that takes a node is that, counted and checked. -/
theorem advance_visit (h : s.task = .visit) :
    s.advance = checked (visit { s with moves := s.moves - 1 }) := by
  unfold advance
  simp only [h]
  rcases visit { s with task := .visit, moves := s.moves - 1 } with ⟨t, _ | error⟩ <;> rfl

/-- A move of a walk that goes on from a node is that, counted and checked. -/
theorem advance_onward (h : s.task = .onward) :
    s.advance = checked (onward { s with moves := s.moves - 1 }) := by
  unfold advance
  simp only [h]
  rcases onward { s with task := .onward, moves := s.moves - 1 } with ⟨t, _ | error⟩ <;> rfl

/-- A walk that has stopped does nothing. The move is counted all the same. -/
theorem advance_stop (h : s.task = .stop) :
    s.advance = ({ s with moves := s.moves - 1 }, none) := by
  unfold advance
  simp only [h]

/-- A move that fails gives up the levels and the task, not the settings or the questions. -/
theorem continues_checked {move : Stream κ × Option Error} (h : Continues s move.1) :
    Continues s (checked move).1 := by
  obtain ⟨t, _ | error⟩ := move
  · exact h
  · exact ⟨h.settings, h.asked⟩

/-- **A move leads to a later moment of the same walk.** -/
theorem continues_advance (s : Stream κ) : Continues s s.advance.1 := by
  have hcounted : Continues s { s with moves := s.moves - 1 } := ⟨rfl, List.suffix_rfl⟩
  cases htask : s.task with
  | visit =>
    rw [advance_visit htask]
    refine continues_checked (hcounted.trans ?_)
    obtain ⟨t, spot, h | ⟨error, h⟩ | ⟨child, -, h⟩⟩ :=
      (visited { s with moves := s.moves - 1 }).spot <;> rw [h] <;>
      exact ⟨spot.settings, spot.asked⟩
  | onward =>
    rw [advance_onward htask]
    refine continues_checked (hcounted.trans ?_)
    have hleft := left { s with moves := s.moves - 1 }
    generalize onward { s with moves := s.moves - 1 } = result at hleft
    cases hleft <;> exact ⟨rfl, List.suffix_rfl⟩
  | stop =>
    rw [advance_stop htask]
    exact hcounted

/-- A move is counted. -/
theorem moves_advance (s : Stream κ) : s.advance.1.moves = s.moves - 1 := by
  have hchecked : ∀ move : Stream κ × Option Error, (checked move).1.moves = move.1.moves := by
    rintro ⟨t, _ | error⟩ <;> rfl
  cases htask : s.task with
  | visit =>
    rw [advance_visit htask, hchecked]
    obtain ⟨t, spot, h | ⟨error, h⟩ | ⟨child, -, h⟩⟩ :=
      (visited { s with moves := s.moves - 1 }).spot <;> rw [h] <;> exact spot.moves
  | onward =>
    rw [advance_onward htask, hchecked]
    have hleft := left { s with moves := s.moves - 1 }
    generalize onward { s with moves := s.moves - 1 } = result at hleft
    cases hleft <;> rfl
  | stop => rw [advance_stop htask]

/-! ### The search for a line -/

/-- A search takes out the line that is pending, without a move. -/
theorem search_pending {line : Line} {rest : List Line} (fuel : Nat) (h : s.pending = line :: rest) :
    search fuel s = (some (.ok line), { s with pending := rest }) := by
  unfold search
  simp only [h]

/-- A search finds nothing where the walk has stopped and no line is pending. -/
theorem search_stop (fuel : Nat) (hpending : s.pending = []) (htask : s.task = .stop) :
    search fuel s = (none, s) := by
  unfold search
  cases fuel <;> simp only [hpending, htask]

/-- A search that may not move finds nothing but a pending line. -/
theorem search_zero (hpending : s.pending = []) : search 0 s = (none, s) := by
  unfold search
  simp only [hpending]

/-- A search goes on from a move that succeeds. -/
theorem search_moved (fuel : Nat) (hpending : s.pending = []) (htask : s.task ≠ .stop)
    (hmove : s.advance = (t, none)) : search (fuel + 1) s = search fuel t := by
  conv_lhs => unfold search
  cases h : s.task with
  | stop => exact absurd h htask
  | visit | onward => simp only [hpending, hmove]

/-- A search ends with the error of a move that fails. -/
theorem search_failed {error : Error} (fuel : Nat) (hpending : s.pending = [])
    (htask : s.task ≠ .stop) (hmove : s.advance = (t, some error)) :
    search (fuel + 1) s = (some (.error error), t) := by
  conv_lhs => unfold search
  cases h : s.task with
  | stop => exact absurd h htask
  | visit | onward => simp only [hpending, hmove]

/-! ### Handing lines over -/

variable {α : Type} {take : α → Line → α × Option Error} {acc acc' : α} {rest : List Line}

/-- A pending line that is refused ends the handing over; those behind it stay pending. -/
theorem consumeUpTo_refused {error : Error} (fuel : Nat)
    (hfeed : feed take acc s.pending = (acc', some error, rest)) :
    consumeUpTo take fuel acc s = (acc', some error, { s with pending := rest }) := by
  unfold consumeUpTo
  simp only [hfeed]

/-- Where the walk has stopped, the pending lines are the last ones that are handed over. -/
theorem consumeUpTo_stop (fuel : Nat) (hfeed : feed take acc s.pending = (acc', none, rest))
    (htask : s.task = .stop) :
    consumeUpTo take fuel acc s = (acc', none, { s with pending := rest }) := by
  unfold consumeUpTo
  cases fuel <;> simp only [hfeed, htask]

/-- Where no move is allowed, the pending lines are the last ones that are handed over. -/
theorem consumeUpTo_zero (hfeed : feed take acc s.pending = (acc', none, rest)) :
    consumeUpTo take 0 acc s = (acc', none, { s with pending := rest }) := by
  unfold consumeUpTo
  simp only [hfeed]

/-- Once the pending lines have been taken a move is made. If it succeeds, the handing over goes on. -/
theorem consumeUpTo_moved (fuel : Nat) (hfeed : feed take acc s.pending = (acc', none, rest))
    (htask : s.task ≠ .stop) (hmove : advance { s with pending := rest } = (t, none)) :
    consumeUpTo take (fuel + 1) acc s = consumeUpTo take fuel acc' t := by
  conv_lhs => unfold consumeUpTo
  cases h : s.task with
  | stop => exact absurd h htask
  | visit | onward =>
    rw [h] at hmove
    simp only [hfeed, hmove]

/-- Once the pending lines have been taken a move is made. If it fails, its error ends the handing over. -/
theorem consumeUpTo_failed {error : Error} (fuel : Nat)
    (hfeed : feed take acc s.pending = (acc', none, rest)) (htask : s.task ≠ .stop)
    (hmove : advance { s with pending := rest } = (t, some error)) :
    consumeUpTo take (fuel + 1) acc s = (acc', some error, t) := by
  conv_lhs => unfold consumeUpTo
  cases h : s.task with
  | stop => exact absurd h htask
  | visit | onward =>
    rw [h] at hmove
    simp only [hfeed, hmove]

/-! ### Whole walks -/

/-- The stream after `n` moves, whether lines were fetched in between or not. -/
def moved : Nat → Stream κ → Stream κ
  | 0, stream => stream
  | n + 1, stream => moved n stream.advance.1

/-- What the moves of a walk keep, no matter which lines are pending. -/
structure Kept (motive : Stream κ → Prop) : Prop where
  pending : ∀ s rest, motive s → motive { s with pending := rest }
  advance : ∀ s, motive s → motive s.advance.1

variable {motive : Stream κ → Prop}

/-- What each move keeps, any number of moves keeps. -/
theorem moved_keeps (kept : Kept motive) (n : Nat) (h : motive s) : motive (moved n s) := by
  induction n generalizing s with
  | zero => exact h
  | succ n ih => exact ih (kept.advance s h)

/-- A search keeps it: its moves lead up to a line that is taken out. -/
theorem search_keeps (kept : Kept motive) (fuel : Nat) (h : motive s) :
    motive (search fuel s).2 := by
  induction fuel generalizing s with
  | zero =>
    cases hpending : s.pending with
    | nil => rw [search_zero hpending]; exact h
    | cons line rest => rw [search_pending 0 hpending]; exact kept.pending s rest h
  | succ fuel ih =>
    cases hpending : s.pending with
    | cons line rest => rw [search_pending _ hpending]; exact kept.pending s rest h
    | nil =>
      by_cases htask : s.task = .stop
      · rw [search_stop _ hpending htask]
        exact h
      -- A move either leads on with the search, or fails and ends it.
      · have hadvance := kept.advance s h
        rcases hmove : s.advance with ⟨t, _ | error⟩ <;> rw [hmove] at hadvance
        · rw [search_moved fuel hpending htask hmove]
          exact ih hadvance
        · rw [search_failed fuel hpending htask hmove]
          exact hadvance

/-- **Any number of calls of `next` keeps it.** -/
theorem after_keeps (kept : Kept motive) (n : Nat) (h : motive s) : motive (after n s) := by
  -- Each call of `next` is one search.
  induction n generalizing s with
  | zero => exact h
  | succ n ih => exact ih (search_keeps kept _ h)

/-- The handing over of lines keeps it: they are taken out between the moves. -/
theorem consumeUpTo_keeps (take : α → Line → α × Option Error) (kept : Kept motive) (fuel : Nat)
    (acc : α) (h : motive s) : motive (consumeUpTo take fuel acc s).2.2 := by
  induction fuel generalizing acc s with
  | zero =>
    rcases hfeed : feed take acc s.pending with ⟨acc', _ | error, rest⟩
    · rw [consumeUpTo_zero hfeed]
      exact kept.pending s rest h
    · rw [consumeUpTo_refused 0 hfeed]
      exact kept.pending s rest h
  | succ fuel ih =>
    rcases hfeed : feed take acc s.pending with ⟨acc', _ | error, rest⟩
    · by_cases htask : s.task = .stop
      · rw [consumeUpTo_stop _ hfeed htask]
        exact kept.pending s rest h
      -- All pending lines are taken before the next move.
      · have hadvance := kept.advance _ (kept.pending s rest h)
        rcases hmove : advance { s with pending := rest } with ⟨t, _ | error⟩ <;>
          rw [hmove] at hadvance
        · rw [consumeUpTo_moved fuel hfeed htask hmove]
          exact ih acc' hadvance
        · rw [consumeUpTo_failed fuel hfeed htask hmove]
          exact hadvance
    · rw [consumeUpTo_refused _ hfeed]
      exact kept.pending s rest h

/-- **Handing lines over keeps it**, however many of them are taken. -/
theorem consume_keeps (take : α → Line → α × Option Error) (kept : Kept motive)
    (acc : α) (h : motive s) : motive (s.consume take acc).2.2 :=
  consumeUpTo_keeps take kept _ acc h

/-- The stream after some calls of `next` is a later moment of the walk. -/
theorem continues_kept (s : Stream κ) : Kept (Continues s) where
  pending _ _ h := ⟨h.settings, h.asked⟩
  advance t h := h.trans (continues_advance t)

end Stream

end BoxTree
