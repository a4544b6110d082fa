import BoxTree.Proofs.CallsTaken
import BoxTree.Proofs.JoinedPushes
import BoxTree.Proofs.ModesAgree
import BoxTree.Proofs.SequencesApart

namespace BoxTree

/-!
# A rendering writes no directive too many

A directive is written before a text if some side of the pen is pending. On the output's own background
that is so exactly if the colour selected is not the one shown last, so a rendering writes one directive
for each segment whose colour differs from that of the segment before it. Breaks between lines add none,
and a writer that starts afresh after every line shows no colour yet.

* `Writer.push_eq_pushUnbroken` — without a background, breaks are written like other characters.
* `Writer.Directed`, `Writer.Directed.pushUnbroken` — how many directives a text has.
* `Writer.Tally`, `Writer.Tally.pushLine` — what a line adds to them.
* `Progress.tally_addLines`, `Progress.took_feedEntries` — lines in one call, and in calls of their own.
* `directives_are_changes` — the directives of a rendering are the changes of colour among its segments.
* `directives_of_sapling` — the directives for a small tree.
-/

namespace Ink

/-- A side without a colour has none to release. -/
theorem release_of_none {ink : Ink} (h : ink.color = none) : ink.release = ink := by
  obtain ⟨color, pending⟩ := ink
  obtain rfl : color = none := h
  cases pending <;> rfl

/-- Once it is shown, a colour is what was selected. -/
theorem settle_select (ink : Ink) (color : Color) : (ink.select color).settle = ⟨some color, false⟩ := by
  rw [settle, color_select]

end Ink

namespace Writer

variable {writer : Writer} {support : Support} {encoding : Encoding} {count : Nat}

/-! ### Breaks without a background -/

/-- Where nothing is pending and there is no background, a break is written like other characters. -/
theorem breakRow_eq (terminal : writer.encoding = .terminal support)
    (settled : writer.pen.isPending = false) (background : writer.pen.background.color = none) :
    writer.breakRow = writer.pushUnbroken "\n" := by
  rw [pushUnbroken_of_settled settled, breakRow, background, terminal]
  rfl

/-- **Without a background, a text is written in one piece**, whatever breaks there are in it. -/
theorem push_eq_pushUnbroken (background : writer.pen.background.color = none) (text : String) :
    writer.push text = writer.pushUnbroken text := by
  cases hencoding : writer.encoding with
  | plain | scriptConsole => simp only [push, hencoding]
  | terminal support =>
    obtain ⟨cs, rfl⟩ : ∃ cs, text = String.ofList cs := ⟨text.toList, String.ofList_toList.symm⟩
    induction cs generalizing writer with
    | nil => exact push_empty writer
    | cons c cs ih =>
      have hencodings : ∀ run, (writer.pushUnbroken run).encoding = .terminal support := fun run =>
        (encoding_pushUnbroken writer run).trans hencoding
      have hrun : writer.pushUnbroken (String.ofList (c :: cs)) =
          (writer.pushUnbroken (String.ofList [c])).pushUnbroken (String.ofList cs) := by
        rw [pushUnbroken_pushUnbroken, ← String.ofList_append, List.singleton_append]
      rw [hrun]
      by_cases hc : c = '\n'
      · subst hc
        have hbroken : (writer.pushUnbroken "").breakRow = writer.pushUnbroken "\n" := by
          rw [breakRow_eq (hencodings "") rfl background, pushUnbroken_pushUnbroken,
            String.empty_append]
        rw [push_newline hencoding, hbroken]
        exact ih background (hencodings "\n")
      · rw [push_char hencoding hc]
        exact ih background (hencodings _)

/-- A text leaves nothing pending. -/
theorem isPending_push (writer : Writer) (text : String) : (writer.push text).pen.isPending = false := by
  have hrows : ∀ (rows : List String) (writer : Writer), writer.pen.isPending = false →
      (writer.pushRows rows).pen.isPending = false := by
    intro rows
    induction rows with
    | nil => exact fun _ settled => settled
    | cons row rest ih => exact fun writer _ => ih (writer.breakRow.pushUnbroken row) rfl
  cases hencoding : writer.encoding with
  | plain | scriptConsole =>
    rw [push, hencoding]
    rfl
  | terminal support =>
    obtain ⟨row, rest, h⟩ := Text.exists_rows text
    rw [push_eq_pushRows hencoding h]
    exact hrows rest _ rfl

/-! ### Directives of a text -/

/-- A writer has written so many directives, whatever text it goes on with. -/
inductive Directed (writer : Writer) (count : Nat) : Prop
  | terminal {support : Support} (encoding : writer.encoding = .terminal support)
      {directives : List (List Sgr.Param)} (length : directives.length = count)
      (sequences : ∀ rest, Sgr.sequencesIn (writer.text.toList ++ rest) =
        directives ++ Sgr.sequencesIn rest)
  | console (encoding : writer.encoding = .scriptConsole) (styles : writer.styles.length = count)

/-- Without text there are no directives. -/
theorem directed_empty (colored : writer.encoding ≠ .plain) (htext : writer.text = "")
    (hstyles : writer.styles = []) : writer.Directed 0 := by
  cases hencoding : writer.encoding with
  | plain => exact absurd hencoding colored
  | terminal support =>
    have hnone : ([] : List (List Sgr.Param)).length = 0 := rfl
    exact .terminal hencoding hnone fun rest => by rw [htext]; rfl
  | scriptConsole => exact .console hencoding (by rw [hstyles]; rfl)

/-- Directives are counted where they have been written, not on the pen. -/
theorem Directed.withPen (directed : writer.Directed count) (pen : Pen) :
    { writer with pen }.Directed count := by
  cases directed with
  | terminal encoding length sequences => exact .terminal encoding length sequences
  | console encoding styles => exact .console encoding styles

/-- **A run has a directive before it if something is pending**, and none in it. -/
theorem Directed.pushUnbroken (directed : writer.Directed count) {run : String}
    (accepts : writer.encoding.Accepts run.toList) :
    (writer.pushUnbroken run).Directed (count + if writer.pen.isPending then 1 else 0) := by
  have hencoding := encoding_pushUnbroken writer run
  cases directed with
  | @terminal support terminal directives length sequences =>
    rw [terminal] at accepts
    cases hpending : writer.pen.isPending with
    | false =>
      have htext : (writer.pushUnbroken run).text = writer.text ++ run := by
        simp only [pushUnbroken_of_settled hpending, terminal, spelled]
      refine .terminal (hencoding.trans terminal) length fun rest => ?_
      rw [htext, String.toList_append, List.append_assoc, sequences, Sgr.sequencesIn_append accepts]
    | true =>
      let params := terminalParams support writer.pen
      have htext : (writer.pushUnbroken run).text = writer.text ++ Sgr.sequence params ++ run := by
        simp only [Writer.pushUnbroken, hpending, if_true, direct, terminal, spelled, params]
      have hlength : (directives ++ [params]).length = count + 1 := by
        rw [List.length_append, length, List.length_singleton]
      refine .terminal (hencoding.trans terminal) hlength fun rest => ?_
      rw [htext, String.toList_append, String.toList_append, List.append_assoc, List.append_assoc,
        sequences, Sgr.sequence, String.toList_ofList,
        Sgr.sequencesIn_sequenceChars (terminalParams_ne_nil hpending)
          (valid_terminalParams support writer.pen),
        Sgr.sequencesIn_append accepts, List.append_assoc, List.singleton_append]
  | console console styles =>
    refine .console (hencoding.trans console) ?_
    unfold Writer.pushUnbroken
    split
    · simp [direct, console, styles]
    · exact styles

/-- The call by which a writer hands its text over has the directives of the text. -/
theorem Directed.call (directed : writer.Directed count) :
    writer.call.directives? writer.encoding = some count := by
  cases directed with
  | @terminal support terminal directives length sequences =>
    have hcall : writer.call = { text := writer.text ++ Sgr.resetSequence } := by
      rw [Writer.call, terminal]
    have hsequences : Sgr.sequencesIn writer.call.text.toList = directives ++ [[.reset]] := by
      rw [hcall, String.toList_append, sequences, Sgr.sequencesIn_resetSequence]
    simp [Call.directives?, terminal, hsequences, length]
  | console console styles =>
    have hcall : writer.call.styles = writer.styles := by
      unfold Writer.call
      rw [console]
      dsimp only
      split
      · next hempty => exact (List.isEmpty_iff.mp hempty).symm
      · rfl
    rw [console, Call.directives?, hcall, styles]

/-! ### Directives of a line -/

/-- A writer without background has written so many directives, and selecting a colour makes its pen
    pending exactly if that colour is not the one shown last. -/
structure Tally (writer : Writer) (encoding : Encoding) (count : Nat) (shown : Option Color) : Prop where
  encoding_eq : writer.encoding = encoding
  directed : writer.Directed count
  background : writer.pen.background.color = none
  pending : ∀ color, (writer.select .foreground color).pen.isPending = decide (shown ≠ some color)

variable {shown : Option Color} {theme : Theme}

theorem tally_new (colored : encoding ≠ .plain) (surface : Surface) :
    Tally { encoding, surface } encoding 0 none :=
  ⟨rfl, directed_empty colored rfl rfl, rfl, fun _ => rfl⟩

theorem Tally.call (tally : Tally writer encoding count shown) :
    writer.call.directives? encoding = some count := by
  rw [← tally.encoding_eq]
  exact tally.directed.call

/-- A writer that starts afresh shows no colour yet. -/
theorem Tally.clear (tally : Tally writer encoding count shown) (surface : Surface) :
    Tally { writer with surface }.clear encoding 0 none := by
  obtain ⟨rfl, directed, background, -⟩ := tally
  have colored : writer.encoding ≠ .plain := by
    intro hplain
    cases directed with
    | terminal terminal => cases hplain.symm.trans terminal
    | console console => cases hplain.symm.trans console
  refine ⟨rfl, directed_empty colored rfl rfl, background, fun color => ?_⟩
  exact Bool.or_true _

/-- Without a background there is none to release. -/
theorem Tally.release (tally : Tally writer encoding count shown) :
    Tally (writer.release false true) encoding count shown := by
  have hsame : writer.pen.release false true = writer.pen := by
    simp [Pen.release, Ink.release_of_none tally.background]
  rwa [Writer.release, hsame]

/-- **A segment adds a directive exactly if its colour is not the one shown last.** -/
theorem Tally.pushSegment (tally : Tally writer encoding count shown) {segment : Segment} {color : Color}
    (hcolor : segment.paint.color? theme = some color) (accepts : encoding.Accepts segment.text.toList) :
    Tally (writer.pushSegment theme segment) encoding (count + if shown = some color then 0 else 1)
      (some color) := by
  obtain ⟨rfl, directed, background, pending⟩ := tally
  let selected := writer.select .foreground color
  have hbackground : selected.pen.background.color = none := background
  have hpush : writer.pushSegment theme segment = selected.pushUnbroken segment.text := by
    rw [Writer.pushSegment, paint_eq hcolor]
    exact push_eq_pushUnbroken hbackground segment.text
  have hcount : (if selected.pen.isPending then 1 else 0) = if shown = some color then 0 else 1 := by
    rw [show selected.pen.isPending = _ from pending color]
    by_cases hshown : shown = some color <;> simp [hshown]
  have hdirected : (selected.pushUnbroken segment.text).Directed _ :=
    (directed.withPen selected.pen).pushUnbroken accepts
  rw [hpush, ← hcount]
  refine ⟨encoding_pushUnbroken selected segment.text, hdirected, hbackground, fun other => ?_⟩
  -- Nothing is pending now, and the side of the characters has this colour.
  show (((writer.pen.foreground.select color).settle.select other).pending || false) = _
  rw [Ink.settle_select, Bool.or_false]
  by_cases hother : color = other <;> simp [Ink.select, hother]

/-- **A line adds as many directives as there are changes of colour among its segments**, seen from the
    colour shown before it. The colour shown behind it is that of its last segment. -/
theorem Tally.pushLine (tally : Tally writer encoding count shown) {line : Line}
    (legible : line.Legible theme encoding) :
    Tally (writer.pushLine theme line) encoding (count + changesAfter shown (line.colors theme))
      ((line.colors theme).getLast?.or shown) := by
  obtain ⟨segments⟩ := line
  unfold Writer.pushLine Line.colors
  dsimp only
  induction segments generalizing writer count shown with
  | nil => exact tally
  | cons segment rest ih =>
    obtain ⟨⟨colored, accepts⟩, hrest⟩ := List.forall_mem_cons.mp legible
    obtain ⟨color, hcolor⟩ := Option.isSome_iff_exists.mp colored
    have hnext := ih (tally.pushSegment hcolor accepts) hrest
    have hcolors : (segment :: rest).filterMap (·.paint.color? theme) =
        color :: rest.filterMap (·.paint.color? theme) := List.filterMap_cons_some hcolor
    rw [List.foldl_cons, hcolors, changesAfter, ← Nat.add_assoc, List.getLast?_cons]
    rwa [Option.or_some] at hnext

/-- A break adds no directive where nothing is pending. -/
theorem Tally.pushBreak (tally : Tally writer encoding count shown)
    (settled : writer.pen.isPending = false) : Tally (writer.push "\n") encoding count shown := by
  obtain ⟨rfl, directed, background, pending⟩ := tally
  have accepts : writer.encoding.Accepts "\n".toList :=
    Encoding.accepts_of_not_mem writer.encoding (by decide)
  have hdirected := directed.pushUnbroken accepts
  rw [settled, pushUnbroken_of_settled settled] at hdirected
  rw [push_eq_pushUnbroken background, pushUnbroken_of_settled settled]
  exact ⟨rfl, hdirected, background, pending⟩

/-- A line leaves nothing pending where nothing was. -/
theorem isPending_pushLine (settled : writer.pen.isPending = false) (theme : Theme) (line : Line) :
    (writer.pushLine theme line).pen.isPending = false := by
  unfold Writer.pushLine
  induction line.segments generalizing writer with
  | nil => exact settled
  | cons segment rest ih => exact ih (isPending_push _ segment.text)

end Writer

/-! ### Lines in one call -/

/-- The changes in two lists of colours, where the second is seen from the last colour of the first. -/
theorem changesAfter_append (previous : Option Color) (colors more : List Color) :
    changesAfter previous (colors ++ more) =
      changesAfter previous colors + changesAfter (colors.getLast?.or previous) more := by
  induction colors generalizing previous with
  | nil => simp [changesAfter]
  | cons color rest ih =>
    rw [List.cons_append, changesAfter, changesAfter, ih, List.getLast?_cons, Nat.add_assoc]
    simp

namespace Progress

open Writer

variable {progress : Progress} {theme : Theme} {encoding : Encoding} {count : Nat} {shown : Option Color}
  {lines : List Line}

/-- A line in one call adds its changes of colour, seen from the line before it. -/
theorem tally_addLine (tally : Tally progress.writer encoding count shown)
    (settled : progress.writer.pen.isPending = false) {line : Line}
    (legible : line.Legible theme encoding) :
    Tally (progress.addLine theme line).writer encoding (count + changesAfter shown (line.colors theme))
        ((line.colors theme).getLast?.or shown) ∧
      (progress.addLine theme line).writer.pen.isPending = false := by
  unfold addLine
  dsimp only
  split
  · exact ⟨tally.pushLine legible, isPending_pushLine settled theme line⟩
  · exact ⟨(tally.pushBreak settled).pushLine legible, isPending_pushLine (isPending_push _ _) theme line⟩

/-- **Lines in one call** add the changes of colour among all their segments. -/
theorem tally_addLines (tally : Tally progress.writer encoding count shown)
    (settled : progress.writer.pen.isPending = false)
    (legible : ∀ line ∈ lines, line.Legible theme encoding) :
    Tally (lines.foldl (addLine theme) progress).writer encoding
      (count + changesAfter shown (lines.flatMap (Line.colors theme)))
      ((lines.flatMap (Line.colors theme)).getLast?.or shown) := by
  induction lines generalizing progress count shown with
  | nil => exact tally
  | cons line rest ih =>
    obtain ⟨hline, hrest⟩ := List.forall_mem_cons.mp legible
    obtain ⟨hadded, hsettled⟩ := tally_addLine tally settled hline
    rw [List.foldl_cons, List.flatMap_cons, changesAfter_append, ← Nat.add_assoc, List.getLast?_append,
      Option.or_assoc]
    exact ih hadded hsettled hrest

end Progress

/-! ### Lines in calls of their own -/

/-- A surface has taken calls with these numbers of directives, as far as it has room for them. -/
def Surface.Took (encoding : Encoding) (before after : Surface) (counts : List Nat) : Prop :=
  ∃ calls, after.calls = before.calls ++ calls ∧ calls.length = before.taken counts.length ∧
    calls.map (Call.directives? encoding) = (counts.take calls.length).map some

namespace Surface

variable {before logged after : Surface} {encoding : Encoding} {count : Nat} {counts : List Nat}
  {call : Call} {error : Error}

theorem took_nil (encoding : Encoding) (surface : Surface) : Took encoding surface surface [] :=
  ⟨[], (List.append_nil _).symm, (taken_zero surface).symm, rfl⟩

theorem took_refused (hlog : before.log call = .error error) (encoding : Encoding) (counts : List Nat) :
    Took encoding before before counts :=
  ⟨[], (List.append_nil _).symm, (taken_of_refused hlog _).symm, rfl⟩

theorem Took.cons (took : Took encoding logged after counts) (hlog : before.log call = .ok logged)
    (hcall : call.directives? encoding = some count) : Took encoding before after (count :: counts) := by
  obtain ⟨calls, hcalls, hlength, hcounts⟩ := took
  refine ⟨call :: calls, ?_, ?_, ?_⟩
  · rw [hcalls, (Surface.of_log hlog).2, List.append_assoc, List.singleton_append]
  · rw [List.length_cons, List.length_cons, hlength, taken_of_logged hlog]
  · rw [List.map_cons, hcall, hcounts, List.length_cons, List.take_succ_cons, List.map_cons]

end Surface

namespace Progress

open Writer

variable {progress : Progress} {theme : Theme} {encoding : Encoding} {count : Nat} {shown : Option Color}
  {lines : List Line}

/-- A text that is handed over is one call with its directives. -/
theorem took_flush (tally : Tally progress.writer encoding count shown) :
    Surface.Took encoding progress.writer.surface progress.flush.1.writer.surface [count] := by
  obtain ⟨hok, hrefused⟩ := flush_outcome progress
  cases hlog : progress.writer.surface.log progress.writer.call with
  | ok logged =>
    rw [(hok logged hlog).2]
    exact (Surface.took_nil encoding logged).cons hlog tally.call
  | error refusal =>
    rw [(hrefused refusal hlog).2]
    exact Surface.took_refused hlog encoding [count]

/-- **Lines in calls of their own** have the changes of colour among their own segments. -/
theorem took_feedEntries (tally : Tally progress.writer encoding 0 none)
    (legible : ∀ line ∈ lines, line.Legible theme encoding) (error : Option Error) :
    Surface.Took encoding progress.writer.surface
      (Stream.feedEntries (flushEach theme) progress (Report.entries (lines, error))).1.writer.surface
      (lines.map fun line => changes (line.colors theme)) := by
  induction lines generalizing progress with
  | nil => cases error <;> exact Surface.took_nil encoding _
  | cons line rest ih =>
    obtain ⟨hline, hrest⟩ := List.forall_mem_cons.mp legible
    have hwritten : Tally (writerOf theme progress line) encoding (0 + changes (line.colors theme)) _ :=
      tally.release.pushLine hline
    rw [Nat.zero_add] at hwritten
    show Surface.Took _ _
      (Stream.feedEntries _ progress (.ok line :: Report.entries (rest, error))).1.writer.surface _
    cases hlog : progress.writer.surface.log (writerOf theme progress line).call with
    | error full =>
      obtain ⟨hrefused, hsame⟩ := flushEach_refused hlog
      rw [(Stream.feedEntries_refused hrefused _).1, hsame]
      exact Surface.took_refused hlog encoding _
    | ok logged =>
      obtain ⟨haccepted, hwriter⟩ := flushEach_ok hlog
      rw [(Stream.feedEntries_taken haccepted _).1]
      have hothers := ih (hwriter ▸ hwritten.clear logged) hrest
      have htaken : (flushEach theme progress line).1.writer.surface = logged := by rw [hwriter]; rfl
      rw [htaken] at hothers
      exact hothers.cons hlog hwritten.call

end Progress

/-! ### Renderings -/

section Renderings

variable {κ : Type} [Cursor κ] {settings : Settings} {options : Options} {source : String} {cursor : κ}
  {encoding : Encoding} {surface : Surface} {lines : List Line}

/-- In one call a new writer writes the changes of colour among all segments. -/
theorem joined_directives (mode : options.lineByLine = false) (colored : encoding ≠ .plain)
    (fresh : options.chosenWriter settings = { encoding, surface })
    (yields : (walk settings options source cursor).Yields (Report.entries (lines, none)))
    (legible : ∀ line ∈ lines, line.Legible (options.chosenTheme settings) encoding) :
    surface.Took encoding (render settings options source cursor).writer.surface
      [changes (lines.flatMap (Line.colors (options.chosenTheme settings)))] := by
  let start := options.started settings (Cursor.label cursor).name
  let written := lines.foldl (Progress.addLine (options.chosenTheme settings)) start
  obtain ⟨-, hwriter⟩ : _ ∧ (render settings options source cursor).writer = written.flush.1.writer :=
    render_joined mode yields
  have hstart : start.writer = { encoding, surface } := fresh
  have settled : start.writer.pen.isPending = false := by rw [hstart]; rfl
  have tally : Writer.Tally written.writer encoding _ _ :=
    Progress.tally_addLines (hstart ▸ Writer.tally_new colored surface) settled legible
  have hsurface : written.writer.surface = surface :=
    (Progress.surface_addLines _ _ _).trans (congrArg Writer.surface hstart)
  have took := Progress.took_flush tally
  rwa [hsurface, Nat.zero_add, ← hwriter] at took

/-- Line by line a new writer writes the changes of colour among the segments of each line. -/
theorem apart_directives {error : Option Error} (mode : options.lineByLine = true)
    (colored : encoding ≠ .plain) (fresh : options.chosenWriter settings = { encoding, surface })
    (yields : (walk settings options source cursor).Yields (Report.entries (lines, error)))
    (legible : ∀ line ∈ lines, line.Legible (options.chosenTheme settings) encoding) :
    surface.Took encoding (render settings options source cursor).writer.surface
      (lines.map fun line => changes (line.colors (options.chosenTheme settings))) := by
  let start := options.started settings (Cursor.label cursor).name
  obtain ⟨-, hwriter⟩ := render_each mode yields
  have hstart : start.writer = { encoding, surface } := fresh
  have tally : Writer.Tally start.writer encoding 0 none :=
    hstart ▸ Writer.tally_new colored surface
  have took := Progress.took_feedEntries tally legible error
  rwa [hstart, ← hwriter] at took

end Renderings

/-- **A rendering writes no directive too many.** A new writer with colours comes to one call, and line by
    line to one call a line, as far as the surface has room. The call has as many directives as there are
    segments, in all lines, whose colour differs from that of the segment before; the call of a line, as
    there are among its own segments. -/
theorem directives_are_changes {forest : Forest} (grown : forest.Grown) {root : Nat}
    (inForest : forest.contains root = true) (settings : Settings) (options : Options) (source : String)
    {encoding : Encoding} {surface : Surface} (colored : encoding ≠ .plain)
    (fresh : options.chosenWriter settings = { encoding, surface })
    (names : ∀ id ∈ (forest.tree root).preorder, encoding.Accepts (forest.label id).name.toList)
    (text : encoding.Accepts source.toList)
    (unfailing : (walk settings options source (⟨forest, root⟩ : Place)).lines.2 = none) :
    let lines := (walk settings options source (⟨forest, root⟩ : Place)).lines.1
    let theme := options.chosenTheme settings
    let joined := render settings { options with lineByLine := false } source (⟨forest, root⟩ : Place)
    let apart := render settings { options with lineByLine := true } source (⟨forest, root⟩ : Place)
    (∀ line ∈ lines, ∀ segment ∈ line.segments, (segment.paint.color? theme).isSome) ∧
      surface.Took encoding joined.writer.surface [changes (lines.flatMap (Line.colors theme))] ∧
      surface.Took encoding apart.writer.surface
        (lines.map fun line => changes (line.colors theme)) := by
  intro lines theme joined apart
  obtain ⟨yields, legible⟩ : (walk settings options source (⟨forest, root⟩ : Place)).Yields
      (Report.entries (walk settings options source (⟨forest, root⟩ : Place)).lines) ∧
      ∀ line ∈ lines, line.Legible theme encoding :=
    legible_walk grown.linked (of_decide_eq_true inForest) names text
  rw [show (walk settings options source (⟨forest, root⟩ : Place)).lines = (lines, none) from
    Prod.ext rfl unfailing] at yields
  have hjoined : ({ options with lineByLine := false } : Options).lineByLine = false := rfl
  have hapart : ({ options with lineByLine := true } : Options).lineByLine = true := rfl
  exact ⟨fun line hline segment hsegment => (legible line hline segment hsegment).1,
    joined_directives hjoined colored fresh yields legible,
    apart_directives hapart colored fresh yields legible⟩

/-- A small tree on a terminal: thirteen directives in one call, since one of its fourteen segments goes on
    in the colour before it, and as many in the calls of its four lines. -/
theorem directives_of_sapling :
    let terminal : Encoding := .terminal .truecolor
    let options : Options := { writer := some { encoding := terminal, surface := .recorder } }
    let place : Place := ⟨.sapling, 0⟩
    let joined := render {} { options with lineByLine := false } "xy" place
    let apart := render {} { options with lineByLine := true } "xy" place
    Forest.sapling.Grown ∧ Forest.sapling.contains 0 = true ∧
      (∀ id ∈ (Forest.sapling.tree 0).preorder,
        terminal.Accepts (Forest.sapling.label id).name.toList) ∧
      terminal.Accepts "xy".toList ∧ (walk {} options "xy" place).lines.2 = none ∧
      Surface.recorder.Took terminal joined.writer.surface [13] ∧
      Surface.recorder.Took terminal apart.writer.surface [2, 3, 4, 4] := by
  intro terminal options place joined apart
  have inForest : Forest.sapling.contains 0 = true := rfl
  have colored : terminal ≠ .plain := nofun
  have names : ∀ id ∈ (Forest.sapling.tree 0).preorder,
      '\x1b' ∉ (Forest.sapling.label id).name.toList := by decide
  have text : '\x1b' ∉ "xy".toList := by decide
  have unfailing : (walk {} options "xy" place).lines.2 = none := by decide +kernel
  have hjoined : changes ((walk {} options "xy" place).lines.1.flatMap
      (Line.colors (options.chosenTheme {}))) = 13 := by decide +kernel
  have hapart : (walk {} options "xy" place).lines.1.map
      (fun line => changes (line.colors (options.chosenTheme {}))) = [2, 3, 4, 4] := by decide +kernel
  have fresh : options.chosenWriter {} = { encoding := terminal, surface := .recorder } := rfl
  obtain ⟨-, tookJoined, tookApart⟩ :=
    directives_are_changes Forest.grown_sapling inForest {} options "xy" colored fresh names text unfailing
  rw [hjoined] at tookJoined
  rw [hapart] at tookApart
  exact ⟨Forest.grown_sapling, inForest, names, text, unfailing, tookJoined, tookApart⟩

end BoxTree
