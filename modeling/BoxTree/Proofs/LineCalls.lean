import BoxTree.Proofs.OutlineText
import BoxTree.Proofs.RenderOutcome

namespace BoxTree

/-!
# The calls of a rendering

In one call a rendering hands over all lines with breaks between them, line by line each line in a call
of its own. Before a line its background is released; whatever that comes to for the first line, it
comes to for all lines.

* `Surface.Takes` — a surface has room for so many calls.
* `Stream.lines_of_yields` — the lines of a walk are those that it yields.
* `Progress.holds_addLines` — lines with breaks between them.
* `precededBy` — rows, with text that was there before in front of the first.
* `Progress.Handed`, `Progress.handed_feedEntries` — the calls that come of handing over every line.
-/

open Sgr

/-! ### Room -/

/-- A surface has room for so many calls. -/
def Surface.Takes (surface : Surface) (calls : Nat) : Prop :=
  ∀ room, surface.room = some room → calls ≤ room

/-- Where there is room for a call, it is taken. -/
theorem Surface.Takes.log {surface : Surface} {n : Nat} (takes : surface.Takes (n + 1)) (call : Call) :
    ∃ logged, surface.log call = .ok logged ∧ logged.Takes n := by
  obtain ⟨kind, room, calls⟩ := surface
  cases room with
  | none => exact ⟨_, rfl, nofun⟩
  | some left =>
    obtain ⟨rest, rfl⟩ := Nat.exists_eq_add_of_le' (takes left rfl)
    refine ⟨_, rfl, fun room hroom => ?_⟩
    obtain rfl := Option.some.inj hroom
    show n ≤ rest + (n + 1) - 1
    omega

/-! ### Lines of a walk -/

/-- The lines of a walk, and the error that ends it, are those that it yields. -/
theorem Stream.lines_of_yields {κ : Type} [Cursor κ] {stream : Stream κ} {report : Report}
    (yields : stream.Yields (Report.entries report)) : stream.lines = report := by
  have hconsumed := consume_all (fun lines line => line :: lines) [] yields
  have hreverse : ∀ lines rest : List Line,
      lines.foldl (fun lines line => line :: lines) rest = lines.reverse ++ rest := by
    intro lines
    induction lines with
    | nil => exact fun _ => rfl
    | cons line lines ih =>
      intro rest
      rw [List.foldl_cons, ih, List.reverse_cons, List.append_assoc, List.singleton_append]
  unfold lines
  rw [hconsumed]
  dsimp only
  rw [hreverse, List.append_nil, List.reverse_reverse]

/-! ### Lines in one call -/

/-- Rows joined by breaks are the first row, and the others behind a break each. -/
theorem joinRows_cons (first : List Cell) (rest : List (List Cell)) :
    joinRows (first :: rest) = first ++ rest.flatMap (rowBreak :: ·) := by
  unfold joinRows
  induction rest generalizing first with
  | nil => simp
  | cons next rest ih =>
    rw [List.intercalate_cons_cons, ih, List.flatMap_cons]
    simp

namespace Progress

variable {progress : Progress} {encoding : Encoding} {theme : Theme} {content : List Cell}

/-- Lines behind the first one come behind a break each. What colour the break has is left open. -/
theorem holds_addLines_behind {background : Option Color}
    (holds : progress.writer.Holds encoding background content) (hbegun : progress.lines ≠ 0)
    {lines : List Line} (legible : ∀ line ∈ lines, line.Legible theme encoding) :
    ∃ after, (lines.foldl (addLine theme) progress).writer.Holds encoding background after ∧
      after.map (fun cell => (encoding.cell cell).plainBreak) =
        (content ++ (lines.map (Line.cells theme background)).flatMap (rowBreak :: ·)).map fun cell =>
          (encoding.cell cell).plainBreak := by
  induction lines generalizing progress content with
  | nil => exact ⟨content, holds, by simp⟩
  | cons line rest ih =>
    obtain ⟨hline, hrest⟩ := List.forall_mem_cons.mp legible
    have hbreak : encoding.Accepts "\n".toList := Encoding.accepts_of_not_mem encoding (by decide)
    have hadded := (holds.push hbreak).pushLine hline
    rw [← show (progress.addLine theme line).writer = (progress.writer.push "\n").pushLine theme line from
      congrArg (Writer.pushLine theme · line) (if_neg hbegun)] at hadded
    obtain ⟨after, hafter, hcells⟩ := ih hadded (Nat.succ_ne_zero _) hrest
    refine ⟨after, hafter, hcells.trans ?_⟩
    simp only [List.map_cons, List.flatMap_cons, List.map_append, List.append_assoc, List.cons_append]
    rfl

/-- Lines written one after the other are joined by breaks. -/
theorem holds_addLines (holds : progress.writer.Holds encoding none []) (hnew : progress.lines = 0)
    {lines : List Line} (legible : ∀ line ∈ lines, line.Legible theme encoding) :
    ∃ after, (lines.foldl (addLine theme) progress).writer.Holds encoding none after ∧
      after.map (fun cell => (encoding.cell cell).plainBreak) =
        (joinRows (lines.map (Line.cells theme none))).map fun cell =>
          (encoding.cell cell).plainBreak := by
  cases lines with
  | nil => exact ⟨[], holds, rfl⟩
  | cons line rest =>
    obtain ⟨hline, hrest⟩ := List.forall_mem_cons.mp legible
    have hadded : (progress.addLine theme line).writer.Holds encoding none (line.cells theme none) := by
      unfold addLine
      rw [if_pos hnew]
      exact holds.pushLine hline
    rw [List.map_cons, joinRows_cons]
    exact holds_addLines_behind hadded (Nat.succ_ne_zero _) hrest

/-- Lines go to no surface before they are handed over. -/
theorem surface_addLines (progress : Progress) (theme : Theme) (lines : List Line) :
    (lines.foldl (addLine theme) progress).writer.surface = progress.writer.surface := by
  induction lines generalizing progress with
  | nil => rfl
  | cons line rest ih =>
    rw [List.foldl_cons, ih]
    unfold addLine
    split
    · exact Writer.surface_pushLine theme _ line
    · exact (Writer.surface_pushLine theme _ line).trans (congrArg Prod.snd (Writer.target_push _ _))

/-- Handing the text over adds one call, where there is room for it. -/
theorem flush_of_takes (takes : progress.writer.surface.Takes 1) :
    progress.flush.2 = none ∧
      progress.flush.1.writer.surface.calls = progress.writer.surface.calls ++ [progress.writer.call] := by
  obtain ⟨logged, hlog, -⟩ := takes.log progress.writer.call
  unfold flush
  rw [Writer.flush_eq, hlog]
  exact ⟨rfl, (Surface.of_log hlog).2⟩

/-! ### Lines in calls of their own -/

/-- A line that is taken leaves a writer without text. -/
theorem flushEach_ok {line : Line} {logged : Surface}
    (hlog : progress.writer.surface.log
      ((progress.writer.release false true).pushLine theme line).call = .ok logged) :
    (flushEach theme progress line).2 = none ∧
      (flushEach theme progress line).1.writer =
        { (progress.writer.release false true).pushLine theme line with surface := logged }.clear := by
  have hsurface : ((progress.writer.release false true).pushLine theme line).surface =
      progress.writer.surface := Writer.surface_pushLine theme _ line
  unfold flushEach flush
  dsimp only
  rw [Writer.flush_eq, hsurface, hlog]
  exact ⟨rfl, rfl⟩

/-- A line that is refused leaves the surface as it is. -/
theorem flushEach_refused {line : Line} {error : Error}
    (hlog : progress.writer.surface.log
      ((progress.writer.release false true).pushLine theme line).call = .error error) :
    (flushEach theme progress line).2 = some error ∧
      (flushEach theme progress line).1.writer.surface = progress.writer.surface := by
  have hsurface : ((progress.writer.release false true).pushLine theme line).surface =
      progress.writer.surface := Writer.surface_pushLine theme _ line
  unfold flushEach flush
  dsimp only
  rw [Writer.flush_eq, hsurface, hlog]
  exact ⟨rfl, hsurface⟩

/-- Where there is room for all lines, none is refused. -/
theorem feedEntries_of_takes {lines : List Line} (takes : progress.writer.surface.Takes lines.length)
    (error : Option Error) :
    (Stream.feedEntries (flushEach theme) progress (Report.entries (lines, error))).2 = error := by
  induction lines generalizing progress with
  | nil => cases error <;> rfl
  | cons line rest ih =>
    obtain ⟨logged, hlog, hrest⟩ :=
      takes.log ((progress.writer.release false true).pushLine theme line).call
    obtain ⟨haccepted, hwriter⟩ := flushEach_ok hlog
    show (Stream.feedEntries _ progress (.ok line :: Report.entries (rest, error))).2 = error
    rw [(Stream.feedEntries_taken haccepted _).1]
    refine ih ?_
    rw [hwriter]
    exact hrest

end Progress

/-- Rows, with text that was there before in front of the first. -/
def precededBy (content : List Cell) : List (List Cell) → List (List Cell)
  | [] => []
  | first :: rest => (content ++ first) :: rest

theorem precededBy_nil (rows : List (List Cell)) : precededBy [] rows = rows := by
  cases rows <;> rfl

namespace Progress

/-- What comes of handing over rows one at a time: the surface takes calls for the first of them, and for
    all of them unless it gets full. -/
structure Handed (encoding : Encoding) (before : Surface) (rows : List (List Cell))
    (error : Option Error) (result : Progress × Option Error) : Prop where
  taken : ∃ calls shown, result.1.writer.surface.calls = before.calls ++ calls ∧
    calls.length ≤ rows.length ∧ calls.mapM (Call.cells? encoding) = some shown ∧
    shown.map (List.map Cell.plainBreak) =
      (rows.take calls.length).map (List.map fun cell => (encoding.cell cell).plainBreak) ∧
    (calls.length < rows.length → result.2 = some .surfaceFull) ∧
    (calls.length = rows.length → result.2 = error)

variable {progress : Progress} {encoding : Encoding} {theme : Theme} {content row cells : List Cell}
  {before logged : Surface} {rows : List (List Cell)} {error : Option Error} {call : Call}
  {result : Progress × Option Error}

theorem handed_nil (hsurface : result.1.writer.surface = before) (hresult : result.2 = error) :
    Handed encoding before [] error result :=
  ⟨[], [], by rw [hsurface, List.append_nil], le_refl _, rfl, rfl, nofun, fun _ => hresult⟩

theorem handed_refused (hsurface : result.1.writer.surface = before)
    (hresult : result.2 = some .surfaceFull) (row : List Cell) (rows : List (List Cell)) :
    Handed encoding before (row :: rows) error result :=
  ⟨[], [], by rw [hsurface, List.append_nil], Nat.zero_le _, rfl, rfl, fun _ => hresult, nofun⟩

/-- One more row is handed over before the others. -/
theorem Handed.cons (handed : Handed encoding logged rows error result)
    (hlog : before.log call = .ok logged) (hcall : call.cells? encoding = some cells)
    (hcells : cells.map Cell.plainBreak = row.map fun cell => (encoding.cell cell).plainBreak) :
    Handed encoding before (row :: rows) error result := by
  obtain ⟨calls, shown, hcalls, hlength, hread, hshown, hfull, hall⟩ := handed
  have hfirst : (call :: calls).mapM (Call.cells? encoding) = some (cells :: shown) := by
    rw [List.mapM_cons, hcall, hread]
    rfl
  refine ⟨call :: calls, cells :: shown, ?_, Nat.succ_le_succ hlength, hfirst, ?_,
    fun hlt => hfull (Nat.lt_of_succ_lt_succ hlt), fun heq => hall (Nat.succ.inj heq)⟩
  · rw [hcalls, (Surface.of_log hlog).2, List.append_assoc, List.singleton_append]
  · rw [List.length_cons, List.take_succ_cons, List.map_cons, List.map_cons, hcells, hshown]

/-- **Every line is handed over** in the colours of its segments, on the background that is left when
    it is released before the first line. -/
theorem handed_feedEntries {background : Option Color}
    (holds : progress.writer.Holds encoding progress.writer.pen.background.color content)
    (released : progress.writer.pen.background.release.color = background) {lines : List Line}
    (legible : ∀ line ∈ lines, line.Legible theme encoding) (error : Option Error) :
    Handed encoding progress.writer.surface
      (precededBy content (lines.map (Line.cells theme background))) error
      (Stream.feedEntries (flushEach theme) progress (Report.entries (lines, error))) := by
  induction lines generalizing progress content with
  | nil => cases error <;> exact handed_nil rfl rfl
  | cons line rest ih =>
    obtain ⟨hline, hrest⟩ := List.forall_mem_cons.mp legible
    have hpushed := holds.release.pushLine hline
    rw [released] at hpushed
    have hsurface : ((progress.writer.release false true).pushLine theme line).surface =
        progress.writer.surface := Writer.surface_pushLine theme _ line
    show Handed _ _ _ _ (Stream.feedEntries _ progress (.ok line :: Report.entries (rest, error)))
    cases hlog : progress.writer.surface.log
        ((progress.writer.release false true).pushLine theme line).call with
    | error full =>
      obtain ⟨hrefused, hsame⟩ := flushEach_refused hlog
      rw [(Stream.feedEntries_refused hrefused _).1]
      refine handed_refused ?_ (congrArg some (Surface.error_of_log hlog)) _ _
      exact hsame
    | ok logged =>
      obtain ⟨haccepted, hwriter⟩ := flushEach_ok hlog
      rw [(Stream.feedEntries_taken haccepted _).1]
      obtain ⟨cells, hcells, hshown⟩ := hpushed.cells_call
      -- What is released again before the next line stays what it is.
      have hafter : (flushEach theme progress line).1.writer.Holds encoding
          (flushEach theme progress line).1.writer.pen.background.color [] := by
        rw [hwriter]
        exact ⟨hpushed.encoding_eq, rfl, [], Writer.written_clear _, rfl⟩
      have hreleased :
          (flushEach theme progress line).1.writer.pen.background.release.color = background := by
        rw [hwriter]
        exact (Ink.color_release_unsettle _).trans hpushed.background_eq
      have hothers := ih hafter hreleased hrest
      rw [precededBy_nil] at hothers
      have htaken : (flushEach theme progress line).1.writer.surface = logged := by rw [hwriter]; rfl
      rw [htaken] at hothers
      exact hothers.cons hlog hcells hshown

end Progress

end BoxTree
