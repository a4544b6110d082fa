import BoxTree.Proofs.ModesAgree

namespace BoxTree

/-!
# The background of lines

Before every line its background is released, but a background that is still to be written is not
affected by that. So the lines of a writer that was used before are on the output's own background
unless a background is selected and still to be written; in that case all of them are on it.

* `Ink.color_release` — what is left of a colour that is released.
* `lines_are_shown_on_background` — what a rendering line by line shows of its lines, and on what.
* `lines_on_written_background` — a writer whose background has been written.
* `lines_keep_cleared_background` — a writer whose background has been written and cleared.
-/

open Sgr

/-- Only a colour that is still to be written is left when it is released. -/
theorem Ink.color_release (ink : Ink) :
    ink.release.color = if ink.pending then ink.color else none := by
  obtain ⟨_ | color, _ | _⟩ := ink <;> rfl

/-- **What a rendering line by line shows.** Whatever was done with the writer before, each call shows
    a line of the walk in the colours of its segments, the first one behind the text that the writer
    had already. There is a call for every line unless the surface gets full. The lines are on the
    background that is selected but not yet written, if there is one, else on the output's own. -/
theorem lines_are_shown_on_background {forest : Forest} (grown : forest.Grown) {root : Nat}
    (inForest : forest.contains root = true) (settings : Settings) {options : Options}
    (mode : options.lineByLine = true) (source : String) {encoding : Encoding} {surface : Surface}
    {actions : List Writer.Action} (accepts : ∀ text, .push text ∈ actions → encoding.Accepts text.toList)
    (used : options.chosenWriter settings = ({ encoding, surface } : Writer).run actions)
    (names : ∀ id ∈ (forest.tree root).preorder, encoding.Accepts (forest.label id).name.toList)
    (text : encoding.Accepts source.toList) :
    let writer := options.chosenWriter settings
    let pushed := ({ encoding, surface } : Writer).pushedFrom [] actions
    let ink := writer.pen.background
    let background := if ink.pending then ink.color else none
    let report := (walk settings options source (⟨forest, root⟩ : Place)).lines
    let rows := precededBy (pushed.map Writer.selected)
      (report.1.map (Line.cells (options.chosenTheme settings) background))
    let result := render settings options source (⟨forest, root⟩ : Place)
    ∃ calls shown, result.writer.surface.calls = writer.surface.calls ++ calls ∧
      calls.length ≤ rows.length ∧ calls.mapM (Call.cells? encoding) = some shown ∧
      shown.map (List.map Cell.plainBreak) =
        (rows.take calls.length).map (List.map fun cell => (encoding.cell cell).plainBreak) ∧
      (calls.length < rows.length → result.error = some .surfaceFull) ∧
      (calls.length = rows.length → result.error = report.2) := by
  intro writer pushed ink background report rows result
  obtain ⟨yields, legible⟩ : (walk settings options source (⟨forest, root⟩ : Place)).Yields
      (Report.entries report) ∧
      ∀ line ∈ report.1, line.Legible (options.chosenTheme settings) encoding :=
    legible_walk grown.linked (of_decide_eq_true inForest) names text
  let start := options.started settings (Cursor.label (⟨forest, root⟩ : Place)).name
  obtain ⟨written, hencoding⟩ : writer.Written pushed ∧ writer.encoding = encoding := by
    unfold writer
    rw [used]
    exact ⟨Writer.written_run_new encoding surface accepts, (Writer.encoding_kind_run _ _).1⟩
  have holds : start.writer.Holds encoding start.writer.pen.background.color
      (pushed.map Writer.selected) := ⟨hencoding, rfl, pushed, written, rfl⟩
  have handed := Progress.handed_feedEntries holds (Ink.color_release _) legible report.2
  obtain ⟨herror, hwriter⟩ := render_each mode yields
  rw [show result.error = _ from herror, show result.writer = _ from hwriter]
  exact handed.taken

/-- A background that has been written is released: only the text before the lines is on it. -/
theorem lines_on_written_background :
    let new : Writer := { encoding := .terminal .truecolor, surface := .recorder }
    let actions : List Writer.Action := [.select .background (.basic 4), .push ">"]
    let options : Options := { writer := some (new.run actions), lineByLine := true }
    let place : Place := ⟨.sapling, 0⟩
    let lines := (walk {} options "xy" place).lines.1
    let rows := precededBy [⟨'>', none, some (.basic 4)⟩]
      (lines.map (Line.cells (options.chosenTheme {}) none))
    Forest.sapling.Grown ∧ Forest.sapling.contains 0 = true ∧
      (∀ text, .push text ∈ actions → '\x1b' ∉ text.toList) ∧
      (∀ id ∈ (Forest.sapling.tree 0).preorder, '\x1b' ∉ (Forest.sapling.label id).name.toList) ∧
      '\x1b' ∉ "xy".toList ∧
      ∃ calls shown, (render {} options "xy" place).writer.surface.calls = calls ∧
        calls.mapM (Call.cells? (.terminal .truecolor)) = some shown ∧
        shown.map (List.map Cell.plainBreak) = (rows.take calls.length).map
          (List.map fun cell => ((Encoding.terminal .truecolor).cell cell).plainBreak) := by
  intro new actions options place lines rows
  have inForest : Forest.sapling.contains 0 = true := rfl
  have accepts : ∀ text, .push text ∈ actions → '\x1b' ∉ text.toList := by
    intro text htext
    obtain rfl : text = ">" := by simpa [actions] using htext
    decide
  have names : ∀ id ∈ (Forest.sapling.tree 0).preorder,
      '\x1b' ∉ (Forest.sapling.label id).name.toList := by decide
  have text : '\x1b' ∉ "xy".toList := by decide
  have used : options.chosenWriter {} = new.run actions := rfl
  obtain ⟨calls, shown, hcalls, -, hread, hshown, -⟩ := lines_are_shown_on_background
    Forest.grown_sapling inForest {} (show options.lineByLine = true from rfl) "xy" accepts used names
    text
  exact ⟨Forest.grown_sapling, inForest, accepts, names, text, calls, shown, hcalls, hread, hshown⟩

/-- A background that has been written and cleared comes back: all lines are on it. -/
theorem lines_keep_cleared_background :
    let new : Writer := { encoding := .terminal .truecolor, surface := .recorder }
    let used := new.run [.select .background (.basic 4), .push ">", .flush, .clear]
    let options : Options := { writer := some used, lineByLine := true }
    let result := render {} options "xy" (⟨.sapling, 0⟩ : Place)
    let added := result.writer.surface.calls.drop used.surface.calls.length
    result.error = none ∧ added.length = 4 ∧ ∃ shown,
      added.mapM (Call.cells? (.terminal .truecolor)) = some shown ∧
        ∀ row ∈ shown, ∀ cell ∈ row, cell.background = some (.basic 4) := by
  intro new used options result added
  have herror : result.error = none := by decide +kernel
  have hcount : added.length = 4 := by decide +kernel
  have hshown : (added.mapM (Call.cells? (.terminal .truecolor))).any
      (fun shown => decide (∀ row ∈ shown, ∀ cell ∈ row, cell.background = some (.basic 4))) =
        true := by
    decide +kernel
  obtain ⟨shown, hread, hcells⟩ := Option.any_eq_true _ _ |>.mp hshown
  exact ⟨herror, hcount, shown, hread, of_decide_eq_true hcells⟩

end BoxTree
