import BoxTree.Output.Writer
import Mathlib

namespace BoxTree

/-!
# Runs of a writer

What was pushed in a run of actions, apart from how the writer writes it.

* `Pen.SameColors` — two pens have selected the same; only what is pending may differ.
* `Writer.after` — the writer after an action, whether that succeeded or not.
* `Writer.pushedFrom` — the characters pushed since the text was dropped last, each with the pen of
  the writer at that moment.
* `Writer.run_keeps` — what every action keeps, a whole run keeps.
* `Writer.flush_eq`, `Surface.of_log` — a flush hands over one call, and the surface adds it to those it
  has taken, unless it is full.
* `Writer.encoding_kind_run` — a run changes neither the encoding nor the kind of surface.
* `Writer.flush_run_of_room` — a surface that takes any number of calls takes the flush after any run.
-/

/-! ### Pens -/

namespace Ink

variable {ink : Ink} {color : Color}

/-- A side that is up to date after a selection has not been changed by it. -/
theorem select_eq (h : (ink.select color).pending = false) : ink.select color = ink := by
  unfold select at h ⊢
  split at h
  · next hsame => rw [if_pos hsame]
  · cases h

theorem release_eq (h : ink.release.pending = false) : ink.release = ink := by
  unfold release at h ⊢
  split at h
  · next hsame => rw [if_pos hsame]
  · cases h

/-- A side has the colour selected last, pending or not. -/
theorem color_select (ink : Ink) (color : Color) : (ink.select color).color = some color := by
  unfold select
  split
  · next hsame => exact hsame
  · rfl

/-- A colour that the output has to be told again is not released. -/
theorem color_release_unsettle (ink : Ink) : ink.unsettle.release.color = ink.color := by
  obtain ⟨_ | color, pending⟩ := ink <;> rfl

end Ink

namespace Pen

variable {pen other : Pen} {side : Side}

/-- Two pens have selected the same colours. -/
def SameColors (pen other : Pen) : Prop := ∀ side, (pen.ink side).color = (other.ink side).color

theorem SameColors.refl (pen : Pen) : SameColors pen pen := fun _ => rfl

theorem SameColors.trans {third : Pen} (first : SameColors pen other) (second : SameColors other third) :
    SameColors pen third := fun side => (first side).trans (second side)

/-- Settling a pen selects nothing. -/
theorem sameColors_settle (h : SameColors pen other) : SameColors pen other.settle
  | .foreground => h .foreground
  | .background => h .background

/-- Unsettling a pen selects nothing. -/
theorem sameColors_unsettle (h : SameColors pen other) : SameColors pen other.unsettle
  | .foreground => h .foreground
  | .background => h .background

/-- A pen that is not pending is pending on no side. -/
theorem not_pending_of_not_isPending (h : pen.isPending = false) (side : Side) :
    (pen.ink side).pending = false := by
  rw [isPending, Bool.or_eq_false_iff] at h
  cases side with
  | foreground => exact h.1
  | background => exact h.2

/-- A side that is up to date after a selection has not been changed by it. -/
theorem ink_select_eq {color : Color} {selected : Side}
    (h : ((pen.select color selected).ink side).pending = false) :
    (pen.select color selected).ink side = pen.ink side := by
  cases selected <;> cases side
  · exact Ink.select_eq h
  · rfl
  · rfl
  · exact Ink.select_eq h

/-- A side that is up to date after a release has not been changed by it. -/
theorem ink_release_eq {foreground background : Bool}
    (h : ((pen.release foreground background).ink side).pending = false) :
    (pen.release foreground background).ink side = pen.ink side := by
  cases side with
  | foreground =>
    cases foreground with
    | false => rfl
    | true => exact Ink.release_eq h
  | background =>
    cases background with
    | false => rfl
    | true => exact Ink.release_eq h

/-- A pen is given by its two sides. -/
theorem eq_of_ink_eq (h : ∀ side, pen.ink side = other.ink side) : pen = other :=
  congr (congrArg Pen.mk (h .foreground)) (h .background)

/-- A pen that is up to date after a selection has not been changed by it. -/
theorem select_eq {color : Color} {selected : Side} (h : (pen.select color selected).isPending = false) :
    pen.select color selected = pen :=
  eq_of_ink_eq fun side => ink_select_eq (not_pending_of_not_isPending h side)

theorem release_eq {foreground background : Bool}
    (h : (pen.release foreground background).isPending = false) :
    pen.release foreground background = pen :=
  eq_of_ink_eq fun side => ink_release_eq (not_pending_of_not_isPending h side)

end Pen

/-! ### Surfaces -/

/-- A surface keeps its kind, and adds a call to those it has taken. -/
theorem Surface.of_log {surface logged : Surface} {call : Call} (h : surface.log call = .ok logged) :
    logged.kind = surface.kind ∧ logged.calls = surface.calls ++ [call] := by
  unfold log at h
  split at h
  · cases h
  · obtain rfl := Except.ok.inj h
    exact ⟨rfl, rfl⟩

/-- A surface refuses a call only if it is full. -/
theorem Surface.error_of_log {surface : Surface} {call : Call} {error : Error}
    (h : surface.log call = .error error) : error = .surfaceFull := by
  unfold log at h
  split at h
  · exact (Except.error.inj h).symm
  · cases h

/-- A surface that takes any number of calls takes the next one, and goes on doing so. -/
theorem Surface.log_of_room {surface : Surface} (hroom : surface.room = none) (call : Call) :
    surface.log call = .ok { surface with calls := surface.calls ++ [call] } := by
  obtain ⟨kind, room, calls⟩ := surface
  obtain rfl : room = none := hroom
  rfl

/-- What standard output shows grows by the line of the call that it takes. -/
theorem Surface.printed_of_log {surface logged : Surface} {call : Call}
    (h : surface.log call = .ok logged) (hkind : surface.kind = .standardOutput) :
    logged.printed = surface.printed ++ call.printed := by
  obtain ⟨hsame, hcalls⟩ := of_log h
  unfold printed
  rw [hsame, hkind, hcalls]
  simp

/-! ### Runs -/

namespace Writer

variable {writer : Writer} {pushed : List (Char × Pen)} {actions : List Action}

/-- The writer after an action. One that fails leaves the writer as it was. -/
def after (writer : Writer) (action : Action) : Writer :=
  (writer.perform action).toOption.getD writer

/-- The characters pushed since the text was dropped last, after one more action. -/
def noted (writer : Writer) (pushed : List (Char × Pen)) : Action → List (Char × Pen)
  | .push text => pushed ++ text.toList.map fun c => (c, writer.pen)
  | .clear => []
  | .select _ _ | .release _ _ | .flush => pushed

/-- The characters pushed since the text was dropped last, each with the pen of the writer at that
    moment. -/
def pushedFrom (writer : Writer) (pushed : List (Char × Pen)) : List Action → List (Char × Pen)
  | [] => pushed
  | action :: rest => pushedFrom (writer.after action) (writer.noted pushed action) rest

theorem run_cons (writer : Writer) (action : Action) (rest : List Action) :
    writer.run (action :: rest) = (writer.after action).run rest := rfl

/-- A run goes on from where another one ended. -/
theorem run_append (writer : Writer) (actions more : List Action) :
    writer.run (actions ++ more) = (writer.run actions).run more := List.foldl_append

/-- What every action of a run keeps of a writer and the characters pushed, the run keeps. -/
theorem run_keeps {motive : Writer → List (Char × Pen) → Prop}
    (step : ∀ writer pushed, ∀ action ∈ actions, motive writer pushed →
      motive (writer.after action) (writer.noted pushed action))
    (h : motive writer pushed) : motive (writer.run actions) (writer.pushedFrom pushed actions) := by
  induction actions generalizing writer pushed with
  | nil => exact h
  | cons action rest ih =>
    rw [run_cons, pushedFrom]
    exact ih (fun w p a ha => step w p a (List.mem_cons_of_mem action ha))
      (step writer pushed action (List.mem_cons_self ..) h)

/-- A flush hands over one call, and changes nothing but the surface. -/
theorem flush_eq (writer : Writer) :
    writer.flush = (writer.surface.log writer.call).map fun surface => { writer with surface } := by
  unfold flush
  cases writer.surface.log writer.call <;> rfl

/-- A flush that succeeds leaves the text, on a surface that has taken the call. -/
theorem log_of_flush {flushed : Writer} (h : writer.flush = .ok flushed) :
    writer.surface.log writer.call = .ok flushed.surface ∧
      flushed = { writer with surface := flushed.surface } := by
  unfold flush at h
  cases hlog : writer.surface.log writer.call with
  | error error =>
    rw [hlog] at h
    cases h
  | ok surface =>
    rw [hlog] at h
    obtain rfl := Except.ok.inj h
    exact ⟨rfl, rfl⟩

/-- A flush changes nothing but the surface, whether it succeeds or not. -/
theorem after_flush (writer : Writer) : ∃ surface, writer.after .flush = { writer with surface } := by
  unfold after perform
  cases h : writer.flush with
  | error error => exact ⟨writer.surface, rfl⟩
  | ok flushed => exact ⟨flushed.surface, (log_of_flush h).2⟩

/-! ### What stays -/

/-- What text and colours leave alone. -/
def target (writer : Writer) : Encoding × Surface := (writer.encoding, writer.surface)

/-- Pushing a row does not change where the text goes and how it is written. -/
theorem target_pushUnbroken (writer : Writer) (text : String) :
    (writer.pushUnbroken text).target = writer.target := by
  have hdirect : writer.direct.target = writer.target := by
    unfold direct
    split <;> rfl
  unfold pushUnbroken
  dsimp only
  split
  · exact hdirect
  · rfl

/-- A writer keeps its encoding when a row is pushed. -/
theorem encoding_pushUnbroken (writer : Writer) (text : String) :
    (writer.pushUnbroken text).encoding = writer.encoding :=
  congrArg Prod.fst (target_pushUnbroken writer text)

/-- A line break does not change where the text goes and how it is written. -/
theorem target_breakRow (writer : Writer) : writer.breakRow.target = writer.target := by
  unfold breakRow
  split <;> rfl

/-- Rows behind line breaks do not change where the text goes and how it is written. -/
theorem target_pushRows (writer : Writer) (rows : List String) :
    (writer.pushRows rows).target = writer.target := by
  unfold pushRows
  induction rows generalizing writer with
  | nil => rfl
  | cons row rest ih => rw [List.foldl_cons, ih, target_pushUnbroken, target_breakRow]

/-- Pushing a text does not change where the text goes and how it is written. -/
theorem target_push (writer : Writer) (text : String) : (writer.push text).target = writer.target := by
  unfold push
  split
  · split
    · rfl
    · rw [target_pushRows, target_pushUnbroken]
  · exact target_pushUnbroken writer text
  · exact target_pushUnbroken writer text

/-- Pushing a text leaves the colours as they are selected. -/
theorem sameColors_push (writer : Writer) (text : String) :
    Pen.SameColors writer.pen (writer.push text).pen := by
  have hrow : ∀ (writer : Writer) (row : String),
      Pen.SameColors writer.pen (writer.pushUnbroken row).pen := fun writer _ =>
    Pen.sameColors_settle (Pen.SameColors.refl writer.pen)
  have hbreak : ∀ writer : Writer, Pen.SameColors writer.pen writer.breakRow.pen := by
    intro writer
    unfold breakRow
    split
    · exact Pen.sameColors_unsettle (Pen.SameColors.refl writer.pen)
    · exact Pen.SameColors.refl writer.pen
  have hrows : ∀ (rows : List String) (writer : Writer),
      Pen.SameColors writer.pen (writer.pushRows rows).pen := by
    intro rows
    induction rows with
    | nil => exact fun writer => Pen.SameColors.refl writer.pen
    | cons row rest ih => exact fun writer => ((hbreak writer).trans (hrow _ row)).trans (ih _)
  unfold push
  split
  · split
    · exact Pen.SameColors.refl writer.pen
    · exact (hrow writer _).trans (hrows _ _)
  · exact hrow writer text
  · exact hrow writer text

/-- An action changes neither the encoding nor the kind of surface. -/
theorem encoding_kind_after (writer : Writer) (action : Action) :
    (writer.after action).encoding = writer.encoding ∧
      (writer.after action).surface.kind = writer.surface.kind := by
  cases action with
  | push text =>
    have htarget := target_push writer text
    exact ⟨congrArg Prod.fst htarget, congrArg (fun target => target.2.kind) htarget⟩
  | flush =>
    -- A flush that fails leaves the surface as it was.
    unfold after perform flush
    dsimp only
    cases hlog : writer.surface.log writer.call with
    | error error => exact ⟨rfl, rfl⟩
    | ok logged => exact ⟨rfl, (Surface.of_log hlog).1⟩
  | select | release | clear => exact ⟨rfl, rfl⟩

/-- A writer keeps its encoding and its kind of surface. -/
theorem encoding_kind_run (writer : Writer) (actions : List Action) :
    (writer.run actions).encoding = writer.encoding ∧
      (writer.run actions).surface.kind = writer.surface.kind := by
  induction actions generalizing writer with
  | nil => exact ⟨rfl, rfl⟩
  | cons action rest ih =>
    rw [run_cons, (ih _).1, (ih _).2]
    exact encoding_kind_after writer action

/-- A surface that takes any number of calls does so after every action. -/
theorem room_after (hroom : writer.surface.room = none) (action : Action) :
    (writer.after action).surface.room = none := by
  cases action with
  | push text =>
    have hsame : (writer.push text).surface.room = writer.surface.room :=
      congrArg (fun target => target.2.room) (target_push writer text)
    exact hsame.trans hroom
  | flush =>
    unfold after perform
    rw [flush_eq, Surface.log_of_room hroom]
    exact hroom
  | select | release | clear => exact hroom

/-- A surface that takes any number of calls takes the flush after any run. -/
theorem flush_run_of_room (hroom : writer.surface.room = none) (actions : List Action) :
    ∃ flushed, (writer.run actions).flush = .ok flushed := by
  have hstays : (writer.run actions).surface.room = none :=
    @run_keeps writer [] actions (fun w _ => w.surface.room = none)
      (fun w _ action _ h => room_after h action) hroom
  rw [flush_eq, Surface.log_of_room hstays]
  exact ⟨_, rfl⟩

end Writer

end BoxTree
