import BoxTree.Proofs.FittedColors
import BoxTree.Proofs.SgrReading
import BoxTree.Proofs.WriterRuns

namespace BoxTree

/-!
# What a terminal shows of a writer's text

* `Writer.ShownAs` — a cell shows a pushed character in the colours of its pen.
* `Writer.Shows` — a screen that has taken the text of a writer shows the characters pushed, and knows
  the sides of the pen that are up to date.
* `Writer.Shows.pushUnbroken`, `Writer.Shows.breakRow`, `Writer.Shows.after` — what each step adds.
* `Writer.shows_run_new` — a run of a new writer.
* `terminal_shows_pushed` — what a terminal shows after the run, and after a flush.
-/

open Sgr

namespace Writer

variable {support : Support} {start : Screen} {writer : Writer} {pushed : List (Char × Pen)} {pen : Pen}

/-- A screen after it has taken the text of a writer. -/
def screen (writer : Writer) (start : Screen) : Screen := start.run writer.text.toList

/-- A cell shows a character in what the terminal shows of the colours of its pen. At the end of a row
    there is no background. -/
def ShownAs (support : Support) (cell : Cell) (entry : Char × Pen) : Prop :=
  cell.char = entry.1 ∧
    if entry.1 = '\n' then cell.background = none
    else
      cell.foreground = entry.2.foreground.color.bind support.shown ∧
        cell.background = entry.2.background.color.bind support.shown

/-- A screen shows the characters pushed, and the sides that the pen takes to be up to date are. -/
structure Shows (support : Support) (start : Screen) (writer : Writer)
    (pushed : List (Char × Pen)) : Prop where
  encoding : writer.encoding = .terminal support
  ground : (writer.screen start).mode = .ground
  cells : List.Forall₂ (ShownAs support) (writer.screen start).cells pushed
  settled : Settled support (writer.screen start) writer.pen

theorem screen_append (writer : Writer) (start : Screen) (more : String) :
    { writer with text := writer.text ++ more }.screen start =
      (writer.screen start).run more.toList := by
  rw [screen, String.toList_append, Screen.run_append, screen]

/-- A text that has just been dropped shows nothing, whatever the screen showed before. -/
theorem shows_clear (hencoding : writer.encoding = .terminal support) (hground : start.mode = .ground)
    (hcells : start.cells = []) : Shows support start writer.clear [] := by
  have hscreen : writer.clear.screen start = start := rfl
  refine ⟨hencoding, by rw [hscreen]; exact hground, by rw [hscreen, hcells]; exact .nil, ?_⟩
  intro side hpending
  cases side <;> cases hpending

/-- A new writer is up to date with a screen on its own colours. -/
theorem shows_new (surface : Surface) (hground : start.mode = .ground) (hcells : start.cells = [])
    (hactive : ∀ side, start.active side = none) :
    Shows support start { encoding := .terminal support, surface } [] := by
  refine ⟨rfl, hground, by rw [screen]; exact hcells ▸ .nil, fun side _ => ?_⟩
  cases side with
  | foreground => exact hactive .foreground
  | background => exact hactive .background

/-! ### What each step adds -/

/-- Once what the pen selects has been written, the screen is up to date with it. -/
theorem Shows.directed (shows : Shows support start writer pushed) :
    let directed := if writer.pen.isPending then writer.direct else writer
    directed.encoding = .terminal support ∧ (directed.screen start).mode = .ground ∧
      (directed.screen start).cells = (writer.screen start).cells ∧
      ∀ side, (directed.screen start).active side = (writer.pen.ink side).color.map support.fit := by
  intro directed
  by_cases hpending : writer.pen.isPending = true
  -- Some side is pending: its parameters are sent, and settle both sides.
  · have hdirected : directed = { writer with
        text := writer.text ++ Sgr.sequence (terminalParams support writer.pen) } := by
      show (if writer.pen.isPending then writer.direct else writer) = _
      rw [if_pos hpending, direct, shows.encoding]
    have hscreen : directed.screen start =
        (terminalParams support writer.pen).foldl Screen.apply (writer.screen start) := by
      rw [hdirected, screen_append, Sgr.sequence, String.toList_ofList,
        Screen.run_sequence shows.ground (terminalParams_ne_nil hpending)
          (valid_terminalParams support writer.pen)]
    obtain ⟨hmode, hcells⟩ :=
      Screen.foldl_apply_kept (terminalParams support writer.pen) (writer.screen start)
    rw [hscreen]
    refine ⟨by rw [hdirected]; exact shows.encoding, hmode.trans shows.ground, hcells, ?_⟩
    exact active_terminalParams shows.settled
  -- Nothing is pending: the screen knows both sides already.
  · have hnot : writer.pen.isPending = false := Bool.eq_false_iff.mpr hpending
    have hdirected : directed = writer := if_neg hpending
    rw [hdirected]
    exact ⟨shows.encoding, shows.ground, rfl, fun side =>
      shows.settled side (Pen.not_pending_of_not_isPending hnot side)⟩

/-- A run of text without line breaks is shown in the colours of the pen, which is up to date then. -/
theorem Shows.pushUnbroken (shows : Shows support start writer pushed) (run : String)
    (hescape : '\x1b' ∉ run.toList) (hrow : '\n' ∉ run.toList) (hpen : Pen.SameColors pen writer.pen) :
    Shows support start (writer.pushUnbroken run) (pushed ++ run.toList.map fun c => (c, pen)) := by
  obtain ⟨hencoding, hmode, hcells, hactive⟩ := shows.directed
  unfold Writer.pushUnbroken
  generalize (if writer.pen.isPending then writer.direct else writer) = directed at *
  have hspelled : spelled writer.encoding run = run := by rw [shows.encoding, spelled]
  have hscreen : ({ directed with text := directed.text ++ run, pen := writer.pen.settle }.screen start) =
      (directed.screen start).run run.toList := screen_append directed start run
  dsimp only
  rw [hspelled]
  rw [Screen.run_plain hmode hescape] at hscreen
  refine ⟨hencoding, by rw [hscreen]; exact hmode, ?_, ?_⟩
  · rw [hscreen, hcells]
    refine List.rel_append shows.cells (List.forall₂_map_left_iff.mpr (List.forall₂_map_right_iff.mpr ?_))
    refine List.forall₂_same.mpr fun c hc => ⟨rfl, ?_⟩
    -- The row has no line break, so both sides have to be right.
    have hne : c ≠ '\n' := fun h => hrow (h ▸ hc)
    have hforeground := hactive .foreground
    have hbackground := hactive .background
    rw [← hpen] at hforeground hbackground
    rw [if_neg hne, Support.bind_shown, Support.bind_shown]
    exact ⟨hforeground, hbackground⟩
  · intro side _
    rw [hscreen, ← Pen.sameColors_settle hpen side, hpen side]
    cases side with
    | foreground => exact hactive .foreground
    | background => exact hactive .background

/-- A line break is shown without background. -/
theorem Shows.breakRow (shows : Shows support start writer pushed)
    (hsettled : writer.pen.isPending = false) (pen : Pen) :
    Shows support start writer.breakRow (pushed ++ [('\n', pen)]) := by
  have hbreak : ∀ screen : Screen, screen.mode = .ground → screen.run "\n".toList = screen.put '\n' := by
    intro screen hground
    show screen.step '\n' = _
    unfold Screen.step
    rw [hground]
    rfl
  have hcell : ∀ fg : Option Color, List.Forall₂ (ShownAs support)
      [⟨'\n', fg, none⟩] [('\n', pen)] := fun fg => .cons ⟨rfl, rfl⟩ .nil
  unfold Writer.breakRow
  split
  -- With a background, the reset before the break closes it.
  · have hscreen : ({ writer with
          text := writer.text ++ Sgr.resetSequence ++ "\n", pen := writer.pen.unsettle }.screen start) =
        ((writer.screen start).apply .reset).put '\n' := by
      rw [← hbreak ((writer.screen start).apply .reset) shows.ground,
        ← Screen.run_resetSequence shows.ground, screen,
        String.toList_append, String.toList_append, Screen.run_append, Screen.run_append]
      rfl
    refine ⟨shows.encoding, by rw [hscreen]; exact shows.ground, ?_, ?_⟩
    · rw [hscreen]
      exact List.rel_append shows.cells (hcell none)
    · intro side hpending
      cases side <;> cases hpending
  · next hnone =>
    -- Without one, the screen has none either, for the pen is up to date.
    have hbackground : (writer.screen start).background =
        writer.pen.background.color.map support.fit :=
      shows.settled .background (Pen.not_pending_of_not_isPending hsettled .background)
    have hactive : (writer.screen start).background = none := by
      rw [hbackground, Option.not_isSome_iff_eq_none.mp hnone, Option.map_none]
    have hscreen : ({ writer with text := writer.text ++ "\n" }.screen start) =
        (writer.screen start).put '\n' := by
      rw [screen_append, hbreak _ shows.ground]
    refine ⟨shows.encoding, by rw [hscreen]; exact shows.ground, ?_, ?_⟩
    · rw [hscreen, Screen.put, hactive]
      exact List.rel_append shows.cells (hcell _)
    · rw [hscreen]
      exact shows.settled

/-- Rows behind a run of text, each after a line break. -/
theorem Shows.pushRows (shows : Shows support start writer pushed)
    (hsettled : writer.pen.isPending = false) (hpen : Pen.SameColors pen writer.pen)
    {rows : List (List Char)} (hescape : ∀ row ∈ rows, '\x1b' ∉ row) (hrow : ∀ row ∈ rows, '\n' ∉ row) :
    Shows support start (writer.pushRows (rows.map String.ofList))
      (pushed ++ (rows.flatMap ('\n' :: ·)).map fun c => (c, pen)) := by
  induction rows generalizing writer pushed with
  | nil => simpa [Writer.pushRows] using shows
  | cons row rest ih =>
    obtain ⟨hescape, hescapes⟩ := List.forall_mem_cons.mp hescape
    obtain ⟨hrow, hrows⟩ := List.forall_mem_cons.mp hrow
    -- A break may make both sides pending, but selects nothing.
    have hbroken : Pen.SameColors pen writer.breakRow.pen := by
      unfold Writer.breakRow
      split
      · exact Pen.sameColors_unsettle hpen
      · exact hpen
    have hnext := (shows.breakRow hsettled pen).pushUnbroken (String.ofList row)
      (by rwa [String.toList_ofList]) (by rwa [String.toList_ofList]) hbroken
    have hrest := ih hnext rfl (Pen.sameColors_settle hbroken) hescapes hrows
    rw [String.toList_ofList] at hrest
    simpa [Writer.pushRows] using hrest

/-- **A text without escape characters is shown in the colours of the pen.** -/
theorem Shows.push (shows : Shows support start writer pushed) {text : String}
    (hescape : '\x1b' ∉ text.toList) :
    Shows support start (writer.push text) (pushed ++ text.toList.map fun c => (c, writer.pen)) := by
  obtain ⟨row, rows, hsplit⟩ := Text.exists_splitOn '\n' text.toList
  obtain ⟨htext, hrow, hrows⟩ := Text.splitOn_eq_cons hsplit
  have hpush : writer.push text =
      (writer.pushUnbroken (String.ofList row)).pushRows (rows.map String.ofList) := by
    unfold Writer.push
    rw [shows.encoding]
    simp only [Text.rows, Text.splitRows, hsplit, List.map_cons]
  have hpieces : ∀ piece ∈ row :: rows, '\x1b' ∉ piece := by
    intro piece hpiece hesc
    rw [← hsplit] at hpiece
    exact hescape ((Text.mem_splitOn hpiece).1 hesc)
  obtain ⟨hfirst, hmem⟩ := List.forall_mem_cons.mp hpieces
  have hrun := shows.pushUnbroken (String.ofList row) (by rwa [String.toList_ofList])
    (by rwa [String.toList_ofList]) (Pen.SameColors.refl writer.pen)
  have hall := hrun.pushRows rfl (Pen.sameColors_settle (Pen.SameColors.refl writer.pen)) hmem hrows
  rw [hpush]
  rw [String.toList_ofList] at hall
  have hchars : text.toList.map (fun c => (c, writer.pen)) =
      row.map (fun c => (c, writer.pen)) ++
        (rows.flatMap ('\n' :: ·)).map fun c => (c, writer.pen) := by
    rw [← List.map_append, ← htext]
  rw [hchars, ← List.append_assoc]
  exact hall

/-- Every action is kept up with. -/
theorem Shows.after (shows : Shows support start writer pushed) (hground : start.mode = .ground)
    (hcells : start.cells = []) {action : Action}
    (hescape : ∀ text, action = .push text → '\x1b' ∉ text.toList) :
    Shows support start (writer.after action) (writer.noted pushed action) := by
  cases action with
  | push text => exact shows.push (hescape text rfl)
  | select side color =>
    refine ⟨shows.encoding, shows.ground, shows.cells, fun other hother => ?_⟩
    have hsame : (writer.pen.select color side).ink other = writer.pen.ink other :=
      Pen.ink_select_eq hother
    show _ = ((writer.pen.select color side).ink other).color.map support.fit
    rw [hsame]
    exact shows.settled other (by rw [← hsame]; exact hother)
  | release foreground background =>
    refine ⟨shows.encoding, shows.ground, shows.cells, fun other hother => ?_⟩
    have hsame : (writer.pen.release foreground background).ink other = writer.pen.ink other :=
      Pen.ink_release_eq hother
    show _ = ((writer.pen.release foreground background).ink other).color.map support.fit
    rw [hsame]
    exact shows.settled other (by rw [← hsame]; exact hother)
  | flush =>
    obtain ⟨surface, hflush⟩ := after_flush writer
    rw [hflush]
    exact ⟨shows.encoding, shows.ground, shows.cells, shows.settled⟩
  | clear => exact shows_clear shows.encoding hground hcells

/-- A run is kept up with. -/
theorem Shows.run (shows : Shows support start writer pushed) (hground : start.mode = .ground)
    (hcells : start.cells = []) {actions : List Action}
    (hescape : ∀ text, .push text ∈ actions → '\x1b' ∉ text.toList) :
    Shows support start (writer.run actions) (writer.pushedFrom pushed actions) := by
  refine run_keeps (fun w p action haction shows => ?_) shows
  exact shows.after hground hcells fun text htext => hescape text (htext ▸ haction)

/-- The text handed over by a flush leaves a screen on its own colours. -/
theorem Shows.flushed (shows : Shows support start writer pushed) :
    let after := start.run writer.call.text.toList
    after.mode = .ground ∧ ∀ side, after.active side = none := by
  have hcall : writer.call.text = writer.text ++ Sgr.resetSequence := by
    unfold Writer.call
    rw [shows.encoding]
  have hscreen : start.run writer.call.text.toList = (writer.screen start).apply .reset := by
    rw [hcall, String.toList_append, Screen.run_append]
    exact Screen.run_resetSequence shows.ground
  rw [hscreen]
  exact ⟨shows.ground, fun side => Screen.active_reset _ side⟩

end Writer

example :
    (Screen.run {} (Writer.run { encoding := .terminal .palette }
      [.select .background (.direct ⟨255, 128, 0⟩), .push "a\nb", .flush]).text.toList).cells =
        [⟨'a', none, some (.indexed 214)⟩, ⟨'\n', none, none⟩, ⟨'b', none, some (.indexed 214)⟩] := by
  decide +kernel

end BoxTree
