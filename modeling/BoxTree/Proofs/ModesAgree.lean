import BoxTree.Proofs.LineCalls

namespace BoxTree

/-!
# The two modes show the same

In one call a rendering lets the colours of one line carry on to the next; line by line every call starts
afresh. What is written differs nearly everywhere, what is shown nowhere.

* `legible_walk` — the lines of a walk are legible if its names and its source are.
* `joined_shows`, `apart_shows` — what a new writer shows in one call, and line by line.
* `modes_show_the_same` — both modes show the lines of the walk in the colours of their segments, with
  breaks between them.
* `modes_show_sapling` — the same for a small tree.
-/

open Sgr

variable {forest : Forest} {root : Nat}

/-- A walk yields the entries of its lines, which are legible if its names and its source are. -/
theorem legible_walk (linked : forest.Linked) (hroot : root < forest.size) {settings : Settings}
    {options : Options} {source : String} {encoding : Encoding}
    (names : ∀ id ∈ (forest.tree root).preorder, encoding.Accepts (forest.label id).name.toList)
    (text : encoding.Accepts source.toList) :
    let stream := walk settings options source (⟨forest, root⟩ : Place)
    stream.Yields (Report.entries stream.lines) ∧
      ∀ line ∈ stream.lines.1, line.Legible (options.chosenTheme settings) encoding := by
  intro stream
  obtain ⟨decide, yields⟩ :=
    Stream.exists_yields linked hroot source (options.chosenTheme settings) options.filter
  have hlines : stream.lines = _ := Stream.lines_of_yields yields
  rw [hlines]
  exact ⟨yields, linked.outline_legible names text⟩

variable {settings : Settings} {options : Options} {source : String} {encoding : Encoding}
  {surface : Surface} {lines : List Line}

/-- What leaves line breaks alone can be done row by row. -/
theorem map_joinRows {f : Cell → Cell} (hbreak : f rowBreak = rowBreak) (rows : List (List Cell)) :
    (joinRows rows).map f = joinRows (rows.map (List.map f)) := by
  cases rows with
  | nil => rfl
  | cons first rest =>
    rw [List.map_cons, joinRows_cons, joinRows_cons, List.map_append, List.map_flatMap, List.flatMap_map]
    simp only [List.map_cons, hbreak]

/-- In one call a new writer shows all lines with breaks between them. -/
theorem joined_shows {κ : Type} [Cursor κ] {cursor : κ} (mode : options.lineByLine = false)
    (fresh : options.chosenWriter settings = { encoding, surface })
    (yields : (walk settings options source cursor).Yields (Report.entries (lines, none)))
    (legible : ∀ line ∈ lines, line.Legible (options.chosenTheme settings) encoding)
    (takes : surface.Takes 1) :
    let result := render settings options source cursor
    result.error = none ∧ ∃ call cells, result.writer.surface.calls = surface.calls ++ [call] ∧
      call.cells? encoding = some cells ∧
      cells.map Cell.plainBreak =
        (joinRows (lines.map (Line.cells (options.chosenTheme settings) none))).map fun cell =>
          (encoding.cell cell).plainBreak := by
  intro result
  let start := options.started settings (Cursor.label cursor).name
  let written := lines.foldl (Progress.addLine (options.chosenTheme settings)) start
  obtain ⟨herror, hwriter⟩ :
      result.error = written.flush.2 ∧ result.writer = written.flush.1.writer :=
    render_joined mode yields
  have hstart : start.writer = { encoding, surface } := fresh
  obtain ⟨content, holds, hcontent⟩ :=
    Progress.holds_addLines (hstart ▸ Writer.holds_new encoding surface) rfl legible
  have hsurface : written.writer.surface = surface :=
    (Progress.surface_addLines _ _ _).trans (congrArg Writer.surface hstart)
  obtain ⟨haccepted, hcalls⟩ := Progress.flush_of_takes (hsurface ▸ takes)
  obtain ⟨cells, hcells, hshown⟩ := holds.cells_call
  refine ⟨herror.trans haccepted, written.writer.call, cells, ?_, hcells, hshown.trans hcontent⟩
  rw [hwriter, hcalls, hsurface]

/-- Line by line a new writer shows every line in a call of its own. -/
theorem apart_shows {κ : Type} [Cursor κ] {cursor : κ} (mode : options.lineByLine = true)
    (fresh : options.chosenWriter settings = { encoding, surface })
    (yields : (walk settings options source cursor).Yields (Report.entries (lines, none)))
    (legible : ∀ line ∈ lines, line.Legible (options.chosenTheme settings) encoding)
    (takes : surface.Takes lines.length) :
    let result := render settings options source cursor
    result.error = none ∧ ∃ calls rows, result.writer.surface.calls = surface.calls ++ calls ∧
      calls.length = lines.length ∧ calls.mapM (Call.cells? encoding) = some rows ∧
      rows.map (List.map Cell.plainBreak) =
        (lines.map (Line.cells (options.chosenTheme settings) none)).map
          (List.map fun cell => (encoding.cell cell).plainBreak) := by
  intro result
  let start := options.started settings (Cursor.label cursor).name
  let outcome := Stream.feedEntries (Progress.flushEach (options.chosenTheme settings)) start
    (Report.entries (lines, none))
  have hstart : start.writer = { encoding, surface } := fresh
  have holds : start.writer.Holds encoding start.writer.pen.background.color [] := by
    rw [hstart]
    exact Writer.holds_new encoding surface
  have hreleased : start.writer.pen.background.release.color = none := by
    rw [hstart]
    rfl
  obtain ⟨calls, rows, hcalls, hlength, hread, hshown, hfull, hall⟩ :=
    (Progress.handed_feedEntries holds hreleased legible none).taken
  obtain ⟨herror, hwriter⟩ : result.error = outcome.2 ∧ result.writer = outcome.1.writer :=
    render_each mode yields
  have hsurface : start.writer.surface = surface := congrArg Writer.surface hstart
  have hnone : outcome.2 = none := Progress.feedEntries_of_takes (hsurface ▸ takes) none
  rw [precededBy_nil, List.length_map] at hlength hfull
  -- A surface with room for all lines has taken them all.
  have hcount : calls.length = lines.length := by
    refine le_antisymm hlength (Nat.le_of_not_lt fun hlt => ?_)
    cases hnone.symm.trans (hfull hlt)
  refine ⟨herror.trans hnone, calls, rows, ?_, hcount, hread, ?_⟩
  · rw [hwriter, hcalls, hsurface]
  · rw [hshown, precededBy_nil, hcount, List.take_of_length_le (List.length_map _).le]

/-- **The two modes show the same.** If the walk does not fail, a rendering with a new writer comes to
    one call, and line by line to one call a line, as far as the surface has room. The call, and those
    of the lines with breaks between them, show the lines of the walk, every character in the colour of
    its segment, as far as the output has it, and on the output's own background. The colours of line
    breaks do not count. -/
theorem modes_show_the_same (grown : forest.Grown) (inForest : forest.contains root = true)
    (settings : Settings) (options : Options) (source : String) {encoding : Encoding} {surface : Surface}
    (fresh : options.chosenWriter settings = { encoding, surface })
    (names : ∀ id ∈ (forest.tree root).preorder, encoding.Accepts (forest.label id).name.toList)
    (text : encoding.Accepts source.toList)
    (unfailing : (walk settings options source (⟨forest, root⟩ : Place)).lines.2 = none) :
    let lines := (walk settings options source (⟨forest, root⟩ : Place)).lines.1
    let theme := options.chosenTheme settings
    let shown := (joinRows (lines.map (Line.cells theme none))).map encoding.cell
    let joined := render settings { options with lineByLine := false } source (⟨forest, root⟩ : Place)
    let apart := render settings { options with lineByLine := true } source (⟨forest, root⟩ : Place)
    (∀ line ∈ lines, ∀ segment ∈ line.segments, (segment.paint.color? theme).isSome) ∧
      (surface.Takes 1 → joined.error = none ∧
        ∃ call cells, joined.writer.surface.calls = surface.calls ++ [call] ∧
          call.cells? encoding = some cells ∧
          cells.map Cell.plainBreak = shown.map Cell.plainBreak) ∧
      (surface.Takes lines.length → apart.error = none ∧
        ∃ calls rows, apart.writer.surface.calls = surface.calls ++ calls ∧
          calls.length = lines.length ∧ calls.mapM (Call.cells? encoding) = some rows ∧
          (joinRows rows).map Cell.plainBreak = shown.map Cell.plainBreak) := by
  intro lines theme shown joined apart
  obtain ⟨yields, legible⟩ : (walk settings options source (⟨forest, root⟩ : Place)).Yields
      (Report.entries (walk settings options source (⟨forest, root⟩ : Place)).lines) ∧
      ∀ line ∈ lines, line.Legible theme encoding :=
    legible_walk grown.linked (of_decide_eq_true inForest) names text
  rw [show (walk settings options source (⟨forest, root⟩ : Place)).lines = (lines, none) from
    Prod.ext rfl unfailing] at yields
  have hshown : shown.map Cell.plainBreak =
      (joinRows (lines.map (Line.cells theme none))).map fun cell => (encoding.cell cell).plainBreak :=
    List.map_map
  have hjoined : ({ options with lineByLine := false } : Options).lineByLine = false := rfl
  have hapart : ({ options with lineByLine := true } : Options).lineByLine = true := rfl
  refine ⟨fun line hline segment hsegment => (legible line hline segment hsegment).1, fun takes => ?_,
    fun takes => ?_⟩
  · rw [hshown]
    exact joined_shows hjoined fresh yields legible takes
  · obtain ⟨herror, calls, rows, hcalls, hcount, hread, hrows⟩ :=
      apart_shows hapart fresh yields legible takes
    refine ⟨herror, calls, rows, hcalls, hcount, hread, ?_⟩
    rw [hshown, map_joinRows (f := Cell.plainBreak) rfl,
      map_joinRows (f := fun cell => (encoding.cell cell).plainBreak) rfl]
    exact congrArg joinRows hrows

/-- A small tree on a terminal, with room for its four lines. -/
theorem modes_show_sapling :
    let support : Support := .truecolor
    let options : Options :=
      { writer := some { encoding := .terminal support, surface := .recorder (some 4) } }
    let place : Place := ⟨.sapling, 0⟩
    let lines := (walk {} options "xy" place).lines.1
    let apart := render {} { options with lineByLine := true } "xy" place
    Forest.sapling.Grown ∧ Forest.sapling.contains 0 = true ∧
      (∀ id ∈ (Forest.sapling.tree 0).preorder,
        (Encoding.terminal support).Accepts (Forest.sapling.label id).name.toList) ∧
      (Encoding.terminal support).Accepts "xy".toList ∧ (walk {} options "xy" place).lines.2 = none ∧
      (Surface.recorder (some 4)).Takes lines.length ∧ apart.error = none ∧
      ∃ calls rows, apart.writer.surface.calls = calls ∧ calls.length = 4 ∧
        calls.mapM (Call.cells? (.terminal support)) = some rows ∧
        (joinRows rows).map Cell.plainBreak =
          ((joinRows (lines.map (Line.cells (options.chosenTheme {}) none))).map
            (Encoding.terminal support).cell).map Cell.plainBreak := by
  intro support options place lines apart
  have inForest : Forest.sapling.contains 0 = true := rfl
  have names : ∀ id ∈ (Forest.sapling.tree 0).preorder,
      '\x1b' ∉ (Forest.sapling.label id).name.toList := by decide
  have text : '\x1b' ∉ "xy".toList := by decide
  have unfailing : (walk {} options "xy" place).lines.2 = none := by decide +kernel
  have hcount : lines.length = 4 := by decide +kernel
  have takes : (Surface.recorder (some 4)).Takes lines.length := by
    rintro room ⟨⟩
    exact hcount.le
  have fresh : options.chosenWriter {} =
      { encoding := .terminal support, surface := .recorder (some 4) } := rfl
  obtain ⟨-, -, hapart⟩ :=
    modes_show_the_same Forest.grown_sapling inForest {} options "xy" fresh names text unfailing
  obtain ⟨herror, calls, rows, hcalls, hlength, hread, hrows⟩ := hapart takes
  exact ⟨Forest.grown_sapling, inForest, names, text, unfailing, takes, herror, calls, rows, hcalls,
    hlength.trans hcount, hread, hrows⟩

end BoxTree
