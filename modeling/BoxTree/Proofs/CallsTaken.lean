import BoxTree.Proofs.LineCalls
import BoxTree.Proofs.WriterText

namespace BoxTree

/-!
# The calls that a surface takes

A walk may fail and a surface may be full, each at any line. In one call nothing is handed over unless the
walk has come to its end; line by line a surface gets the lines up to the first that fails, and no line
behind a refused one is pulled.

* `Surface.taken` — how many of so many calls a surface takes.
* `flushesIn` — how often a writer has tried to hand its text over.
* `CarryInTurn` — calls that carry the first lines of a list, one each.
* `Progress.Sent`, `Progress.sent_feedEntries` — what comes of handing lines over one at a time.
* `Progress.adds_addLines` — what is written of lines that are handed over together.
* `renderText_eq` — the text of a tree.
* `rendering_hands_over` — what a rendering hands over, and what it reports, in either mode.
-/

/-! ### Counting calls -/

/-- How many of so many calls a surface takes, one after the other. -/
def Surface.taken (surface : Surface) (calls : Nat) : Nat :=
  match surface.room with
  | none => calls
  | some room => min room calls

namespace Surface

variable {surface logged : Surface} {call : Call} {error : Error}

theorem taken_zero (surface : Surface) : surface.taken 0 = 0 := by
  unfold taken
  split
  · rfl
  · exact Nat.min_zero _

/-- A surface that refuses a call takes none. -/
theorem taken_of_refused (h : surface.log call = .error error) (calls : Nat) :
    surface.taken calls = 0 := by
  unfold log at h
  split at h
  · next hroom =>
    unfold taken
    rw [hroom]
    exact Nat.zero_min _
  · cases h

/-- A surface that takes a call takes it and as many as it takes after that. -/
theorem taken_of_logged (h : surface.log call = .ok logged) (calls : Nat) :
    surface.taken (calls + 1) = logged.taken calls + 1 := by
  unfold log at h
  split at h
  · cases h
  · next room hfull =>
    obtain rfl := Except.ok.inj h
    unfold taken
    cases hroom : surface.room with
    | none => rfl
    | some room =>
      cases room with
      | zero => exact absurd hroom hfull
      | succ room => exact Nat.succ_min_succ room calls

end Surface

/-- An attempt to hand a text over. -/
def Event.isFlush : Event → Bool
  | flushed .. => true
  | supportDetected _ | renderStarted .. | renderFinished _ => false

/-- How often a writer has tried to hand its text over. -/
def flushesIn (events : List Event) : Nat := events.countP Event.isFlush

theorem flushesIn_append (events more : List Event) :
    flushesIn (events ++ more) = flushesIn events + flushesIn more := List.countP_append

/-- Nothing is handed over before a rendering has begun. -/
theorem flushesIn_started (options : Options) (settings : Settings) (name : String) :
    flushesIn (options.started settings name).events = 0 := by
  have hsupport : flushesIn settings.findSupport.2.2 = 0 := by
    unfold Settings.findSupport
    split <;> rfl
  have hencoding : ∀ platform, flushesIn (settings.encoding platform options.colors).2.2 = 0 := by
    intro platform
    unfold Settings.encoding
    split
    · rfl
    · rfl
    · rcases hfound : settings.findSupport with ⟨support, after, events⟩
      rw [hfound] at hsupport
      cases support <;> exact hsupport
  unfold Options.started Options.writerFor
  dsimp only
  rw [flushesIn_append]
  split
  · rfl
  · exact hencoding _

/-! ### One line -/

namespace Progress

variable {progress : Progress} {theme : Theme} {line : Line} {lines : List Line} {error : Option Error}

/-- The writer by which a line is handed over. -/
def writerOf (theme : Theme) (progress : Progress) (line : Line) : Writer :=
  (progress.writer.release false true).pushLine theme line

theorem adds_writerOf (theme : Theme) (progress : Progress) (line : Line) :
    progress.writer.Adds line.plain (writerOf theme progress line) := by
  have hadded := (Writer.adds_release progress.writer false true).trans
    (Writer.adds_pushLine theme _ line)
  rwa [String.empty_append] at hadded

/-- A flush is one attempt, whether it succeeds or not. -/
theorem flushes_flush (progress : Progress) :
    flushesIn progress.flush.1.events = flushesIn progress.events + 1 := by
  unfold flush
  cases progress.writer.flush <;> exact flushesIn_append _ _

/-- A line is handed over once, whether it is refused or not. -/
theorem flushes_flushEach (theme : Theme) (progress : Progress) (line : Line) :
    flushesIn (flushEach theme progress line).1.events = flushesIn progress.events + 1 := by
  unfold flushEach flush
  dsimp only
  cases ((progress.writer.release false true).pushLine theme line).flush <;>
    exact flushesIn_append _ _

end Progress

/-! ### Lines in calls of their own -/

/-- Each of these calls carries one line, in order. The first carries it behind a text that was there
    before. -/
def CarryInTurn (encoding : Encoding) (text : String) (styles : List String) (lines : List Line)
    (calls : List Call) : Prop :=
  ∀ i (call : Call), calls[i]? = some call → ∃ line, lines[i]? = some line ∧
    call.Carries encoding (if i = 0 then text else "") (if i = 0 then styles else []) line.plain

theorem carryInTurn_nil (encoding : Encoding) (text : String) (styles : List String)
    (lines : List Line) : CarryInTurn encoding text styles lines [] := nofun

/-- One more line is carried before the others. -/
theorem CarryInTurn.cons {encoding : Encoding} {text : String} {styles : List String} {line : Line}
    {lines : List Line} {call : Call} {calls : List Call}
    (first : call.Carries encoding text styles line.plain)
    (others : CarryInTurn encoding "" [] lines calls) :
    CarryInTurn encoding text styles (line :: lines) (call :: calls) := by
  intro i other hother
  cases i with
  | zero =>
    obtain rfl := Option.some.inj hother
    exact ⟨line, rfl, first⟩
  | succ i =>
    obtain ⟨found, hfound, hcarries⟩ := others i other hother
    refine ⟨found, hfound, ?_⟩
    rw [ite_self, ite_self] at hcarries
    exact hcarries

namespace Progress

variable {progress : Progress} {theme : Theme} {line : Line} {lines : List Line} {error : Option Error}

/-- What comes of handing lines over one at a time: as many as there is room for are taken, and after a
    refusal no other is looked at. -/
structure Sent (theme : Theme) (progress : Progress) (lines : List Line) (error : Option Error)
    (outcome : Progress × Option Error) (pulls : Nat) : Prop where
  calls : ∃ calls, outcome.1.writer.surface.calls = progress.writer.surface.calls ++ calls ∧
    calls.length = progress.writer.surface.taken lines.length ∧
    CarryInTurn progress.writer.encoding progress.writer.text progress.writer.styles lines calls
  flushes : flushesIn outcome.1.events = flushesIn progress.events +
    min (progress.writer.surface.taken lines.length + 1) lines.length
  error : outcome.2 =
    if progress.writer.surface.taken lines.length < lines.length then some .surfaceFull else error
  pulls : pulls = progress.writer.surface.taken lines.length + 1

theorem sent_nil (theme : Theme) (progress : Progress) (error : Option Error) :
    Sent theme progress [] error (progress, error) 1 := by
  refine ⟨⟨[], (List.append_nil _).symm, ?_, carryInTurn_nil _ _ _ _⟩, rfl, rfl, ?_⟩
  · exact (Surface.taken_zero _).symm
  · rw [List.length_nil, Surface.taken_zero]

/-- A line that is refused is the last one. -/
theorem sent_refused {refusal : Error}
    (hlog : progress.writer.surface.log (writerOf theme progress line).call = .error refusal)
    (lines : List Line) (error : Option Error) :
    Sent theme progress (line :: lines) error
      ((flushEach theme progress line).1, some refusal) 1 := by
  have hnone := Surface.taken_of_refused hlog (line :: lines).length
  obtain ⟨-, hsame⟩ : _ ∧ (flushEach theme progress line).1.writer.surface = _ :=
    flushEach_refused hlog
  refine ⟨⟨[], ?_, ?_, carryInTurn_nil _ _ _ _⟩, ?_, ?_, ?_⟩
  · rw [hsame, List.append_nil]
  · exact hnone.symm
  · rw [hnone, flushes_flushEach, List.length_cons]
    omega
  · rw [hnone]
    exact (congrArg some (Surface.error_of_log hlog)).trans (if_pos (Nat.succ_pos lines.length)).symm
  · rw [hnone]

/-- A line that is taken leaves a writer without text to those after it. -/
theorem Sent.cons {outcome : Progress × Option Error} {pulls : Nat} {logged : Surface}
    (hlog : progress.writer.surface.log (writerOf theme progress line).call = .ok logged)
    (sent : Sent theme (flushEach theme progress line).1 lines error outcome pulls) :
    Sent theme progress (line :: lines) error outcome (pulls + 1) := by
  obtain ⟨-, hwriter⟩ : _ ∧ (flushEach theme progress line).1.writer = _ := flushEach_ok hlog
  have htaken := Surface.taken_of_logged hlog lines.length
  obtain ⟨⟨calls, hcalls, hlength, hcarry⟩, hflushes, herror, hpulls⟩ := sent
  have hadds := adds_writerOf theme progress line
  have hencoding : (writerOf theme progress line).encoding = progress.writer.encoding :=
    congrArg Prod.fst hadds.target
  -- What is left of the writer are its encoding and the surface that has taken the call.
  have hsurface : (flushEach theme progress line).1.writer.surface = logged :=
    congrArg Writer.surface hwriter
  have hcleared : CarryInTurn progress.writer.encoding "" [] lines calls := by
    rw [hwriter] at hcarry
    rw [← hencoding]
    exact hcarry
  rw [hsurface] at hcalls hlength hflushes herror hpulls
  refine ⟨⟨(writerOf theme progress line).call :: calls, ?_, ?_, .cons hadds.carries hcleared⟩,
    ?_, ?_, ?_⟩
  · rw [hcalls, (Surface.of_log hlog).2, List.append_assoc, List.singleton_append]
  · rw [List.length_cons, List.length_cons, hlength, htaken]
  · rw [hflushes, flushes_flushEach, List.length_cons, htaken]
    omega
  · rw [herror, List.length_cons, htaken]
    simp only [Nat.add_lt_add_iff_right]
  · rw [hpulls, List.length_cons, htaken]

/-- **Handing lines over one at a time** ends with the error behind them, or at the first line for
    which there is no room. -/
theorem sent_feedEntries (theme : Theme) (progress : Progress) (lines : List Line)
    (error : Option Error) :
    Sent theme progress lines error
      (Stream.feedEntries (flushEach theme) progress (Report.entries (lines, error)))
      (Stream.pullsFor (flushEach theme) progress (Report.entries (lines, error))) := by
  induction lines generalizing progress with
  | nil => cases error <;> exact sent_nil theme progress _
  | cons line rest ih =>
    show Sent theme progress (line :: rest) error
      (Stream.feedEntries _ progress (.ok line :: Report.entries (rest, error)))
      (Stream.pullsFor _ progress (.ok line :: Report.entries (rest, error)))
    cases hlog : progress.writer.surface.log (writerOf theme progress line).call with
    | error full =>
      obtain ⟨hfed, hpulls⟩ := Stream.feedEntries_refused (flushEach_refused hlog).1
        (Report.entries (rest, error))
      rw [hfed, hpulls]
      exact sent_refused hlog rest error
    | ok logged =>
      obtain ⟨hfed, hpulls⟩ := Stream.feedEntries_taken (flushEach_ok hlog).1
        (Report.entries (rest, error))
      rw [hfed, hpulls]
      exact (ih (flushEach theme progress line).1).cons hlog

/-! ### Lines in one call -/

/-- Rows joined by line feeds are the first row, and the others behind a line feed each. -/
theorem intercalate_newline (first : String) (rest : List String) :
    String.intercalate "\n" (first :: rest) = first ++ String.join (rest.map ("\n" ++ ·)) := by
  induction rest generalizing first with
  | nil => simp
  | cons next rest ih =>
    rw [String.intercalate_cons_cons, ih, List.map_cons, String.join_cons, String.append_assoc,
      String.append_assoc]

/-- Lines behind the first one are added with a line feed before each. -/
theorem adds_addLines_behind (hbegun : progress.lines ≠ 0) (lines : List Line) :
    progress.writer.Adds (String.join (lines.map fun line => "\n" ++ line.plain))
      (lines.foldl (addLine theme) progress).writer := by
  induction lines generalizing progress with
  | nil => exact Writer.adds_pen progress.writer progress.writer.pen
  | cons line rest ih =>
    have hadded : progress.writer.Adds ("\n" ++ line.plain) (progress.addLine theme line).writer := by
      unfold addLine
      rw [if_neg hbegun]
      exact (Writer.adds_push _ "\n").trans (Writer.adds_pushLine theme _ line)
    rw [List.map_cons, String.join_cons]
    exact hadded.trans (ih (Nat.succ_ne_zero _))

/-- **Lines that are handed over together** are added with line feeds between them. -/
theorem adds_addLines (theme : Theme) (progress : Progress) (hnew : progress.lines = 0)
    (lines : List Line) :
    progress.writer.Adds (String.intercalate "\n" (lines.map Line.plain))
      (lines.foldl (addLine theme) progress).writer := by
  cases lines with
  | nil => exact Writer.adds_pen progress.writer progress.writer.pen
  | cons line rest =>
    have hadded : progress.writer.Adds line.plain (progress.addLine theme line).writer := by
      unfold addLine
      rw [if_pos hnew]
      exact Writer.adds_pushLine theme _ line
    rw [List.map_cons, intercalate_newline, List.map_map]
    exact hadded.trans (adds_addLines_behind (Nat.succ_ne_zero _) rest)

/-- Lines are written without trying to hand them over. -/
theorem events_addLines (theme : Theme) (progress : Progress) (lines : List Line) :
    (lines.foldl (addLine theme) progress).events = progress.events := by
  induction lines generalizing progress with
  | nil => rfl
  | cons line rest ih => exact ih (progress.addLine theme line)

/-- A flush succeeds if and only if the surface takes the call. -/
theorem flush_outcome (progress : Progress) :
    (∀ logged, progress.writer.surface.log progress.writer.call = .ok logged →
        progress.flush.2 = none ∧ progress.flush.1.writer.surface = logged) ∧
      ∀ refusal, progress.writer.surface.log progress.writer.call = .error refusal →
        progress.flush.2 = some refusal ∧
          progress.flush.1.writer.surface = progress.writer.surface := by
  unfold flush
  rw [Writer.flush_eq]
  refine ⟨fun logged hlog => ?_, fun refusal hlog => ?_⟩ <;> rw [hlog] <;> exact ⟨rfl, rfl⟩

end Progress

/-! ### Renderings -/

section Renderings

variable {κ : Type} [Cursor κ] {settings : Settings} {options : Options} {source : String} {cursor : κ}
  {lines : List Line}

/-- The text of a tree is the texts of its lines, with line feeds between them. -/
theorem renderText_eq {error : Option Error}
    (yields : (walk settings options source cursor).Yields (Report.entries (lines, error))) :
    let left := (walk settings options source cursor).after (lines.length + 1)
    renderText settings options source cursor =
      (error.elim (.ok (String.intercalate "\n" (lines.map Line.plain))) .error, left.finish,
        left.asked) := by
  intro left
  have hadds := Progress.adds_addLines (options.chosenTheme settings)
    { writer := { encoding := .plain } } rfl lines
  obtain ⟨-, text, styles, hwrites, htext, -⟩ := hadds
  obtain ⟨rfl, -⟩ := hwrites.plain
  rw [renderText_of_yields yields, htext]
  cases error with
  | none => exact congrArg (fun text => (Except.ok text, left.finish, left.asked)) String.empty_append
  | some error => rfl

/-- In one call, nothing is handed over of a walk that fails. -/
theorem joined_fails {error : Error} (mode : options.lineByLine = false)
    (yields : (walk settings options source cursor).Yields (Report.entries (lines, some error))) :
    let result := render settings options source cursor
    result.error = some error ∧ flushesIn result.events = 0 ∧
      result.writer.surface = (options.chosenWriter settings).surface := by
  intro result
  rw [show result = _ from render_joined_eq mode yields]
  refine ⟨rfl, ?_, Progress.surface_addLines _ _ _⟩
  unfold Rendered.of
  dsimp only [Option.elim]
  rw [flushesIn_append, Progress.events_addLines, flushesIn_started]
  rfl

/-- In one call, all lines of a walk that does not fail are handed over together. -/
theorem joined_hands_over (mode : options.lineByLine = false)
    (yields : (walk settings options source cursor).Yields (Report.entries (lines, none))) :
    let writer := options.chosenWriter settings
    let result := render settings options source cursor
    flushesIn result.events = 1 ∧
      ∃ call : Call, call.Carries writer.encoding writer.text writer.styles
          (String.intercalate "\n" (lines.map Line.plain)) ∧
        (∀ logged, writer.surface.log call = .ok logged →
          result.error = none ∧ result.writer.surface = logged) ∧
        ∀ refusal, writer.surface.log call = .error refusal →
          result.error = some refusal ∧ result.writer.surface = writer.surface := by
  intro writer result
  let start := options.started settings (Cursor.label cursor).name
  let written := lines.foldl (Progress.addLine (options.chosenTheme settings)) start
  have hadds : writer.Adds _ written.writer := Progress.adds_addLines _ start rfl lines
  have hsurface : written.writer.surface = writer.surface := congrArg Prod.snd hadds.target
  obtain ⟨hok, hrefused⟩ := Progress.flush_outcome written
  rw [hsurface] at hok hrefused
  rw [show result = _ from render_joined_eq mode yields]
  refine ⟨?_, written.writer.call, hadds.carries, hok, hrefused⟩
  have hflush : flushesIn written.flush.1.events = 1 := by
    rw [Progress.flushes_flush, Progress.events_addLines, flushesIn_started]
  show flushesIn (written.flush.1.events ++ if written.flush.2.isNone then _ else []) = 1
  rw [flushesIn_append, hflush]
  split <;> rfl

/-- Line by line, as many lines as there is room for are handed over, and no more than one is pulled
    behind them. -/
theorem apart_hands_over {error : Option Error} (mode : options.lineByLine = true)
    (yields : (walk settings options source cursor).Yields (Report.entries (lines, error))) :
    let writer := options.chosenWriter settings
    let taken := writer.surface.taken lines.length
    let left := (walk settings options source cursor).after (taken + 1)
    let result := render settings options source cursor
    flushesIn result.events = min (taken + 1) lines.length ∧
      result.error = (if taken < lines.length then some .surfaceFull else error) ∧
      result.asked = left.asked ∧ result.cursor = left.finish ∧
      ∃ calls, result.writer.surface.calls = writer.surface.calls ++ calls ∧ calls.length = taken ∧
        CarryInTurn writer.encoding writer.text writer.styles lines calls := by
  intro writer taken left result
  let start := options.started settings (Cursor.label cursor).name
  let take := Progress.flushEach (options.chosenTheme settings)
  let outcome := Stream.feedEntries take start (Report.entries (lines, error))
  have sent : Progress.Sent _ start lines error outcome _ :=
    Progress.sent_feedEntries (options.chosenTheme settings) start lines error
  have hresult : result = .of (options.settingsAfter settings) (outcome.1, outcome.2,
      (walk settings options source cursor).after
        (Stream.pullsFor take start (Report.entries (lines, error)))) :=
    render_each_eq mode yields
  rw [sent.pulls] at hresult
  rw [show result = _ from hresult]
  refine ⟨?_, sent.error, rfl, rfl, sent.calls⟩
  have hflushes := sent.flushes
  rw [flushesIn_started, Nat.zero_add] at hflushes
  unfold Rendered.of
  dsimp only
  rw [flushesIn_append, hflushes]
  split <;> rfl

end Renderings

/-- **What a rendering hands over, and what it reports**, when the walk may fail after any number of lines
    and the surface may be full after any number of calls. The calls of `next` answer with the lines and
    with the error behind them. In one call, a walk that fails is reported and nothing is handed over;
    else there is one attempt, with all lines, which decides on the outcome. Line by line, the surface
    takes a call for each line as far as it has room, the first one behind the text that the writer had
    already. A full surface is reported before the error of the walk. The walk is left where it was when
    the line refused, or its end, was pulled: no later line is, and the filter is not asked again. -/
theorem rendering_hands_over {forest : Forest} (grown : forest.Grown) {root : Nat}
    (inForest : forest.contains root = true) (settings : Settings) (options : Options)
    (source : String) :
    let place : Place := ⟨forest, root⟩
    let stream := walk settings options source place
    let lines := stream.lines.1
    let failure := stream.lines.2
    let writer := options.chosenWriter settings
    let result := render settings options source place
    stream.Yields (Report.entries (lines, failure)) ∧
      (options.lineByLine = false →
        (∀ error, failure = some error → result.error = some error ∧ flushesIn result.events = 0 ∧
          result.writer.surface = writer.surface) ∧
        (failure = none → flushesIn result.events = 1 ∧
          ∃ call : Call, call.Carries writer.encoding writer.text writer.styles
              (String.intercalate "\n" (lines.map Line.plain)) ∧
            (∀ logged, writer.surface.log call = .ok logged →
              result.error = none ∧ result.writer.surface = logged) ∧
            ∀ refusal, writer.surface.log call = .error refusal →
              result.error = some refusal ∧ result.writer.surface = writer.surface)) ∧
      (options.lineByLine = true →
        let taken := writer.surface.taken lines.length
        let left := stream.after (taken + 1)
        flushesIn result.events = min (taken + 1) lines.length ∧
        result.error = (if taken < lines.length then some .surfaceFull else failure) ∧
        result.asked = left.asked ∧ result.cursor = left.finish ∧
        ∃ calls, result.writer.surface.calls = writer.surface.calls ++ calls ∧
          calls.length = taken ∧
          CarryInTurn writer.encoding writer.text writer.styles lines calls) := by
  intro place stream lines failure writer result
  have yields : stream.Yields (Report.entries (lines, failure)) := by
    obtain ⟨decide, hyields⟩ := Stream.exists_yields grown.linked (of_decide_eq_true inForest) source
      (options.chosenTheme settings) options.filter
    have hlines : stream.lines = _ := Stream.lines_of_yields hyields
    show stream.Yields (Report.entries stream.lines)
    rw [hlines]
    exact hyields
  refine ⟨yields, fun mode => ⟨fun error herror => ?_, fun hnone => ?_⟩, fun mode => ?_⟩
  · rw [herror] at yields
    exact joined_fails mode yields
  · rw [hnone] at yields
    exact joined_hands_over mode yields
  · exact apart_hands_over mode yields

/-- Two of the four lines of a small tree are taken, the first one behind the text of the writer, and the
    walk is left at the third. -/
theorem sapling_hands_over_two_lines :
    let options : Options := {
      lineByLine := true
      writer := some { encoding := .plain, text := "> ", surface := .recorder (some 2) } }
    let place : Place := ⟨.sapling, 0⟩
    let stream := walk {} options "xy" place
    let result := render {} options "xy" place
    Forest.sapling.Grown ∧ Forest.sapling.contains 0 = true ∧ result.error = some .surfaceFull ∧
      flushesIn result.events = 3 ∧ result.asked = (stream.after 3).asked ∧
      ∃ calls, result.writer.surface.calls = calls ∧ calls.length = 2 ∧
        CarryInTurn .plain "> " [] stream.lines.1 calls := by
  intro options place stream result
  have inForest : Forest.sapling.contains 0 = true := rfl
  have hcount : stream.lines.1.length = 4 := by decide +kernel
  have htaken : (Surface.recorder (some 2)).taken stream.lines.1.length = 2 := by
    rw [hcount]
    rfl
  have hfull : (Surface.recorder (some 2)).taken stream.lines.1.length < stream.lines.1.length := by
    rw [htaken, hcount]
    decide
  have htries : min ((Surface.recorder (some 2)).taken stream.lines.1.length + 1)
      stream.lines.1.length = 3 := by
    rw [htaken, hcount]
    rfl
  obtain ⟨-, -, hapart⟩ := rendering_hands_over Forest.grown_sapling inForest {} options "xy"
  obtain ⟨hflushes, herror, hasked, -, calls, hcalls, hlength, hcarry⟩ := hapart rfl
  exact ⟨Forest.grown_sapling, inForest, herror.trans (if_pos hfull), hflushes.trans htries,
    hasked.trans (congrArg (fun taken => (stream.after (taken + 1)).asked) htaken), calls, hcalls,
    hlength.trans htaken, hcarry⟩

end BoxTree
