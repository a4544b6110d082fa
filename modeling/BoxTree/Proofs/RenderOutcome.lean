import BoxTree.Proofs.StreamConsumed
import BoxTree.Proofs.WriterRuns
import BoxTree.Render

namespace BoxTree

/-!
# What a rendering comes to

A rendering is the entries of its walk, handed over to a writer that is given away once or after every
line.

* `Stream.consume_all` — a walk handed over to someone who refuses no line.
* `Options.chosenWriter` — the writer that a rendering begins with.
* `render_joined`, `render_each`, `renderText_of_yields` — a rendering in one call, line by line, and as text.
* `Progress.error_flush` — a surface refuses a call only if it is full.
-/

namespace Stream

variable {α : Type} {take : α → Line → α × Option Error}

/-- Who refuses no line gets all of them, and the error that ends the report. There is a call for each line
    and one for what comes after them. -/
theorem feedEntries_entries (f : α → Line → α) (acc : α) (report : Report) :
    feedEntries (fun acc line => (f acc line, none)) acc (Report.entries report) =
        (report.1.foldl f acc, report.2) ∧
      pullsFor (fun acc line => (f acc line, none)) acc (Report.entries report) =
        report.1.length + 1 := by
  obtain ⟨lines, error⟩ := report
  induction lines generalizing acc with
  | nil => cases error <;> exact ⟨rfl, rfl⟩
  | cons line rest ih =>
    obtain ⟨hfeed, hpulls⟩ := ih (f acc line)
    exact ⟨hfeed, congrArg (· + 1) hpulls⟩

/-- **Who refuses no line gets all of them**, and the walk is left as the calls for them leave it. -/
theorem consume_all {κ : Type} [Cursor κ] {stream : Stream κ} {report : Report} (f : α → Line → α) (acc : α)
    (yields : stream.Yields (Report.entries report)) :
    stream.consume (fun acc line => (f acc line, none)) acc =
      (report.1.foldl f acc, report.2, stream.after (report.1.length + 1)) := by
  obtain ⟨hfeed, hpulls⟩ := feedEntries_entries f acc report
  rw [consume_eq _ acc yields, hfeed, hpulls]

/-- Where the entries are lines, only a refusal can end them. -/
theorem feedEntries_lines {refusal : Error → Prop}
    (hrefusal : ∀ acc line error, (take acc line).2 = some error → refusal error) {error : Error}
    (acc : α) (lines : List Line) (h : (feedEntries take acc (lines.map .ok)).2 = some error) :
    refusal error := by
  induction lines generalizing acc with
  | nil => cases h
  | cons line rest ih =>
    rw [List.map_cons, feedEntries] at h
    split at h
    · exact ih _ h
    · next htake =>
      obtain rfl := Option.some.inj h
      exact hrefusal acc line _ (congrArg Prod.snd htake)

end Stream

/-- The writer that a rendering begins with. -/
def Options.chosenWriter (options : Options) (settings : Settings) : Writer :=
  (options.writerFor settings (options.platformIn settings)).1

/-- The theme that a rendering is drawn in. -/
def Options.chosenTheme (options : Options) (settings : Settings) : Theme :=
  options.themeFor (options.platformIn settings)

/-- A rendering before its first line, under the name of the node that it begins at. -/
def Options.started (options : Options) (settings : Settings) (name : String) : Progress where
  writer := options.chosenWriter settings
  events :=
    let platform := options.platformIn settings
    (options.writerFor settings platform).2.2 ++
      [Event.renderStarted platform options.colors options.lineByLine name]

namespace Progress

variable {progress : Progress} {error : Error}

/-- A flush fails only if the surface is full. -/
theorem error_flush (h : progress.flush.2 = some error) : error = .surfaceFull := by
  unfold flush at h
  rw [Writer.flush_eq] at h
  cases hlog : progress.writer.surface.log progress.writer.call with
  | ok surface =>
    rw [hlog] at h
    cases h
  | error refusal =>
    rw [hlog] at h
    obtain rfl := Option.some.inj h
    exact Surface.error_of_log hlog

/-- A line is refused only if the surface is full. -/
theorem error_flushEach {theme : Theme} {line : Line} (h : (flushEach theme progress line).2 = some error) :
    error = .surfaceFull := by
  unfold flushEach at h
  dsimp only at h
  split at h
  · next hflush => exact error_flush ((congrArg Prod.snd hflush).trans h)
  · cases h

end Progress

/-! ### Renderings -/

variable {κ : Type} [Cursor κ] {settings : Settings} {options : Options} {source : String} {cursor : κ}

/-- Writing every line of a walk comes to the lines of its report and to its error. -/
theorem writeAll_of_yields {stream : Stream κ} {report : Report} (theme : Theme) (progress : Progress)
    (yields : stream.Yields (Report.entries report)) :
    writeAll theme progress stream =
      (report.1.foldl (Progress.addLine theme) progress, report.2,
        stream.after (report.1.length + 1)) :=
  Stream.consume_all (Progress.addLine theme) progress yields

/-- What is left of a rendering that has come to this. -/
def Rendered.of (settings : Settings) (outcome : Progress × Option Error × Stream κ) : Rendered κ where
  error := outcome.2.1
  cursor := outcome.2.2.finish
  asked := outcome.2.2.asked
  writer := outcome.1.writer
  settings
  events := outcome.1.events ++ if outcome.2.1.isNone then [.renderFinished outcome.1.lines] else []

/-- The settings that a rendering leaves behind. -/
def Options.settingsAfter (options : Options) (settings : Settings) : Settings :=
  (options.writerFor settings (options.platformIn settings)).2.1

/-- A rendering writes its walk in one of the two modes. -/
theorem render_eq (settings : Settings) (options : Options) (source : String) (cursor : κ) :
    let theme := options.chosenTheme settings
    let start := options.started settings (Cursor.label cursor).name
    let stream := walk settings options source cursor
    render settings options source cursor = .of (options.settingsAfter settings)
      (if options.lineByLine then writeEach theme start stream
        else
          match writeAll theme start stream with
          | (progress, some error, stream) => (progress, some error, stream)
          | (progress, none, stream) => (progress.flush.1, progress.flush.2, stream)) :=
  rfl

/-- **In one call** the lines of a walk are written one after the other, and handed over unless the walk
    has failed. -/
theorem render_joined_eq {report : Report} (mode : options.lineByLine = false)
    (yields : (walk settings options source cursor).Yields (Report.entries report)) :
    let start := options.started settings (Cursor.label cursor).name
    let written := report.1.foldl (Progress.addLine (options.chosenTheme settings)) start
    let outcome := report.2.elim written.flush fun error => (written, some error)
    render settings options source cursor = .of (options.settingsAfter settings)
      (outcome.1, outcome.2, (walk settings options source cursor).after (report.1.length + 1)) := by
  intro start written outcome
  have hall := writeAll_of_yields (options.chosenTheme settings) start yields
  rw [render_eq, if_neg (Bool.eq_false_iff.mp mode), hall]
  unfold outcome
  cases report.2 <;> rfl

/-- **Line by line** every line of a walk is handed over at once, and no more lines are pulled than are
    looked at. -/
theorem render_each_eq {entries : List (Except Error Line)} (mode : options.lineByLine = true)
    (yields : (walk settings options source cursor).Yields entries) :
    let start := options.started settings (Cursor.label cursor).name
    let take := Progress.flushEach (options.chosenTheme settings)
    let outcome := Stream.feedEntries take start entries
    render settings options source cursor = .of (options.settingsAfter settings)
      (outcome.1, outcome.2,
        (walk settings options source cursor).after (Stream.pullsFor take start entries)) := by
  intro start take outcome
  rw [render_eq, if_pos mode, writeEach, Stream.consume_eq _ _ yields]

theorem render_joined {report : Report} (mode : options.lineByLine = false)
    (yields : (walk settings options source cursor).Yields (Report.entries report)) :
    let start := options.started settings (Cursor.label cursor).name
    let written := report.1.foldl (Progress.addLine (options.chosenTheme settings)) start
    let outcome := report.2.elim written.flush fun error => (written, some error)
    let result := render settings options source cursor
    result.error = outcome.2 ∧ result.writer = outcome.1.writer := by
  intro start written outcome result
  rw [show result = _ from render_joined_eq mode yields]
  exact ⟨rfl, rfl⟩

theorem render_each {entries : List (Except Error Line)} (mode : options.lineByLine = true)
    (yields : (walk settings options source cursor).Yields entries) :
    let start := options.started settings (Cursor.label cursor).name
    let outcome := Stream.feedEntries (Progress.flushEach (options.chosenTheme settings)) start entries
    let result := render settings options source cursor
    result.error = outcome.2 ∧ result.writer = outcome.1.writer := by
  intro start outcome result
  rw [show result = _ from render_each_eq mode yields]
  exact ⟨rfl, rfl⟩

/-- The text of a tree is what a plain writer makes of the lines, or the error that ends them. Cursor and
    questions are those of the walk behind its lines. -/
theorem renderText_of_yields {report : Report}
    (yields : (walk settings options source cursor).Yields (Report.entries report)) :
    let written := report.1.foldl (Progress.addLine (options.chosenTheme settings))
      { writer := { encoding := .plain } }
    let left := (walk settings options source cursor).after (report.1.length + 1)
    renderText settings options source cursor =
      (report.2.elim (.ok written.writer.text) .error, left.finish, left.asked) := by
  intro written left
  have hall := writeAll_of_yields (options.chosenTheme settings) { writer := { encoding := .plain } } yields
  unfold Options.chosenTheme at hall
  unfold renderText
  dsimp only
  rw [hall]
  cases report.2 <;> rfl

end BoxTree
