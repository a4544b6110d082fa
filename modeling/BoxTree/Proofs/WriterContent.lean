import BoxTree.Output.Shown
import BoxTree.Proofs.ConsoleText
import BoxTree.Proofs.StyleReading
import BoxTree.Proofs.TerminalText

namespace BoxTree

/-!
# What a writer has to show

Whatever its encoding, a writer that hands its text over shows the characters pushed in the colours that
were selected for them.

* `Writer.Written` — the text of a writer stands for these characters, each with the pen it was pushed
  with; `Writer.Written.after` — every action keeps up with it.
* `Writer.cells_call_plain`, `Writer.Shows.cells_call`, `Writer.Formats.cells_call` — what is shown of the
  call by which the text is handed over, in each encoding; `Writer.Written.cells_call` — in all of them.
* `Writer.Holds` — a writer with these characters to show, and the colour behind the next ones.
* `Writer.Holds.pushLine` — a line adds its characters in the colours of its segments.
-/

open Sgr

/-- The segments of a line have colours, and texts that are shown as they are. -/
def Line.Legible (theme : Theme) (encoding : Encoding) (line : Line) : Prop :=
  ∀ segment ∈ line.segments,
    (segment.paint.color? theme).isSome ∧ encoding.Accepts segment.text.toList

/-! ### Lists in step -/

section Forall₂

variable {α β γ : Type} {r : α → β → Prop} {xs : List α} {ys : List β}

/-- Lists whose members are related have the same images, if related members do. -/
theorem map_eq_of_forall₂ {f : α → γ} {g : β → γ} (related : List.Forall₂ r xs ys)
    (h : ∀ a b, r a b → f a = g b) : xs.map f = ys.map g := by
  induction related with
  | nil => rfl
  | cons hab _ ih => rw [List.map_cons, List.map_cons, h _ _ hab, ih]

/-- If an image exists for each member, and is the same for related members, so it is for the lists. -/
theorem mapM_eq_of_forall₂ {f : α → Option γ} {g : β → γ} (related : List.Forall₂ r xs ys)
    (h : ∀ a b, r a b → f a = some (g b)) : xs.mapM f = some (ys.map g) := by
  induction related with
  | nil => rfl
  | cons hab _ ih =>
    rw [List.mapM_cons, h _ _ hab, ih]
    rfl

end Forall₂

namespace Writer

variable {writer : Writer} {pushed : List (Char × Pen)} {content : List Cell}

/-! ### Characters and their pens -/

/-- The text of a writer stands for these characters, each with the pen it was pushed with. -/
inductive Written (writer : Writer) (pushed : List (Char × Pen)) : Prop
  | plain (encoding : writer.encoding = .plain) (text : writer.text.toList = pushed.map Prod.fst)
  | terminal {support : Support} (shows : Shows support {} writer pushed)
  | console {chars : List Console.StyledChar} {now : Option String}
      (formats : Formats writer pushed chars now)

/-- The empty text of a new writer stands for nothing. -/
theorem written_new (encoding : Encoding) (surface : Surface) : Written { encoding, surface } [] := by
  cases encoding with
  | plain => exact .plain rfl rfl
  | terminal support => exact .terminal (shows_new surface rfl rfl fun side => by cases side <;> rfl)
  | scriptConsole => exact .console (formats_new surface)

/-- A text that has just been dropped stands for nothing. -/
theorem written_clear (writer : Writer) : Written writer.clear [] := by
  cases hencoding : writer.encoding with
  | plain => exact .plain hencoding rfl
  | terminal support => exact .terminal (shows_clear hencoding rfl rfl)
  | scriptConsole => exact .console (formats_clear hencoding)

/-- A plain writer adds a text as it is. -/
theorem push_plain (hencoding : writer.encoding = .plain) (text : String) :
    writer.push text = { writer with text := writer.text ++ text, pen := writer.pen.settle } := by
  have hdirect : writer.direct = writer := by
    unfold direct
    rw [hencoding]
  unfold push pushUnbroken
  simp only [hencoding, spelled, hdirect, ite_self]

/-- Every action is kept up with. -/
theorem Written.after (written : Written writer pushed) {action : Action}
    (accepts : ∀ text, action = .push text → writer.encoding.Accepts text.toList) :
    Written (writer.after action) (writer.noted pushed action) := by
  cases written with
  | plain hencoding htext =>
    cases action with
    | push text =>
      show Written (writer.push text) _
      rw [push_plain hencoding]
      refine .plain hencoding ?_
      rw [String.toList_append, htext, noted, List.map_append, List.map_map]
      exact congrArg _ (List.map_id _).symm
    | select | release => exact .plain hencoding htext
    | flush =>
      obtain ⟨surface, hflush⟩ := after_flush writer
      rw [hflush]
      exact .plain hencoding htext
    | clear => exact written_clear writer
  | terminal shows =>
    refine .terminal (shows.after rfl rfl fun text htext => ?_)
    have haccepts := accepts text htext
    rwa [shows.encoding] at haccepts
  | console formats =>
    obtain ⟨chars, now, hafter⟩ := formats.after action
    exact .console hafter

/-- A new writer keeps up with every run. -/
theorem written_run_new (encoding : Encoding) (surface : Surface) {actions : List Action}
    (accepts : ∀ text, .push text ∈ actions → encoding.Accepts text.toList) :
    let new : Writer := { encoding, surface }
    Written (new.run actions) (new.pushedFrom [] actions) := by
  intro new
  have hkeeps := @run_keeps new [] actions (fun w p => Written w p ∧ w.encoding = encoding) ?_
    ⟨written_new encoding surface, rfl⟩
  · exact hkeeps.1
  · intro w p action haction ⟨written, hencoding⟩
    refine ⟨written.after fun text htext => ?_, (encoding_kind_after w action).1.trans hencoding⟩
    rw [hencoding]
    exact accepts text (htext ▸ haction)

/-! ### What is shown of a call -/

/-- A character in the colours of its pen. -/
def selected (entry : Char × Pen) : Cell :=
  ⟨entry.1, entry.2.foreground.color, entry.2.background.color⟩

/-- Only text pushed without colours is handed over without styles. -/
theorem Formats.uncolored {chars : List Console.StyledChar} {now : Option String}
    (formats : Formats writer pushed chars now) (hstyles : writer.styles = []) :
    ∀ entry ∈ pushed, entry.2.foreground.color = none ∧ entry.2.background.color = none := by
  have hread := formats.read?_eq
  rw [hstyles, Console.read?, formats.literal hstyles,
    ← List.append_nil (Console.quoteChars _), Console.readFrom?_quoteChars, Console.readFrom?,
    Option.map_some, List.append_nil, List.map_map] at hread
  obtain ⟨rfl, -⟩ := Prod.mk.inj (Option.some.inj hread)
  intro entry hentry
  obtain ⟨-, hstyle | ⟨-, hcolors⟩⟩ :=
    List.forall₂_same.mp (List.forall₂_map_left_iff.mp formats.styled) entry hentry
  · cases hstyle
  · exact hcolors

/-- A styled character is read in the colours of its pen. -/
theorem cell?_of_styledAs {styled : Console.StyledChar} {entry : Char × Pen}
    (h : StyledAs styled entry) :
    styled.cell? = some (Encoding.scriptConsole.cell (selected entry)) := by
  obtain ⟨hchar, hstyle | ⟨hstyle, hforeground, hbackground⟩⟩ := h
  · rw [Console.StyledChar.cell?, hstyle]
    simp only [Console.readStyle?_style, Option.map_some, hchar, selected, Encoding.cell]
    cases entry.2.foreground.color <;> cases entry.2.background.color <;> rfl
  · rw [Console.StyledChar.cell?, hstyle]
    simp only [hchar, selected, Encoding.cell, hforeground, hbackground]
    rfl

/-- Plain text is shown without colours. -/
theorem cells_call_plain (hencoding : writer.encoding = .plain)
    (htext : writer.text.toList = pushed.map Prod.fst) :
    writer.call.cells? .plain = some (pushed.map fun entry => Encoding.plain.cell (selected entry)) := by
  have hcall : writer.call = { text := writer.text } := by
    unfold call
    rw [hencoding]
  have hcell : ∀ entry, Encoding.plain.cell (selected entry) = { char := entry.1 } := by
    rintro ⟨c, pen⟩
    simp only [Encoding.cell, selected]
    cases pen.foreground.color <;> cases pen.background.color <;> rfl
  rw [hcall]
  simp only [Call.cells?, htext, List.map_map, Function.comp_def, hcell]

/-- A terminal shows a character in the colours that its support has for those selected. -/
theorem plainBreak_of_shownAs {support : Support} {cell : Cell} {entry : Char × Pen}
    (h : ShownAs support cell entry) :
    cell.plainBreak = ((Encoding.terminal support).cell (selected entry)).plainBreak := by
  obtain ⟨hchar, hcolors⟩ := h
  have hsame : ((Encoding.terminal support).cell (selected entry)).char = cell.char := hchar.symm
  unfold Cell.plainBreak
  rw [hsame, hchar]
  split
  · rfl
  · next hne =>
    rw [if_neg hne] at hcolors
    obtain ⟨c, foreground, background⟩ := cell
    obtain ⟨rfl, rfl, rfl⟩ : c = entry.1 ∧ _ := ⟨hchar, hcolors⟩
    simp only [Encoding.cell, selected]
    cases entry.2.foreground.color <;> cases entry.2.background.color <;> rfl

/-- The reset at the end of a call shows nothing. -/
theorem Shows.cells_call {support : Support} (shows : Shows support {} writer pushed) :
    writer.call.cells? (.terminal support) = some (writer.screen {}).cells := by
  have hcall : writer.call.text = writer.text ++ Sgr.resetSequence := by
    unfold call
    rw [shows.encoding]
  have hreset := congrArg Screen.cells (Screen.run_resetSequence shows.ground)
  rw [Call.cells?, hcall, String.toList_append, Screen.run_append]
  exact congrArg some hreset

/-- A console shows the characters in the styles they come with. -/
theorem Formats.cells_call {chars : List Console.StyledChar} {now : Option String}
    (formats : Formats writer pushed chars now) :
    writer.call.cells? .scriptConsole =
      some (pushed.map fun entry => Encoding.scriptConsole.cell (selected entry)) := by
  by_cases hstyles : writer.styles = []
  · rw [formats.call_eq.1 hstyles]
    simp only [Call.cells?, List.isEmpty_nil, if_true, String.toList_ofList, List.map_map]
    refine congrArg some (List.map_congr_left fun entry hentry => ?_)
    obtain ⟨hforeground, hbackground⟩ := formats.uncolored hstyles entry hentry
    simp only [Function.comp_apply, Encoding.cell, selected, hforeground, hbackground]
    rfl
  · rw [formats.call_eq.2 hstyles]
    have hne : writer.styles.isEmpty = false := by simpa using hstyles
    simp only [Call.cells?, hne, formats.read?_eq]
    exact mapM_eq_of_forall₂ formats.styled fun _ _ => cell?_of_styledAs

/-- **What is shown of a call** are the characters pushed in the colours of their pens. -/
theorem Written.cells_call (written : Written writer pushed) :
    ∃ cells, writer.call.cells? writer.encoding = some cells ∧
      cells.map Cell.plainBreak =
        pushed.map fun entry => (writer.encoding.cell (selected entry)).plainBreak := by
  cases written with
  | plain hencoding htext =>
    rw [hencoding]
    exact ⟨_, cells_call_plain hencoding htext, List.map_map⟩
  | terminal shows =>
    rw [shows.encoding]
    exact ⟨_, shows.cells_call, map_eq_of_forall₂ shows.cells fun _ _ => plainBreak_of_shownAs⟩
  | console formats =>
    rw [formats.encoding]
    exact ⟨_, formats.cells_call, List.map_map⟩

/-! ### Characters and their colours -/

/-- A writer has these characters to show, and this colour selected behind the next ones. -/
structure Holds (writer : Writer) (encoding : Encoding) (background : Option Color)
    (content : List Cell) : Prop where
  encoding_eq : writer.encoding = encoding
  background_eq : writer.pen.background.color = background
  written : ∃ pushed, Written writer pushed ∧ pushed.map selected = content

variable {encoding : Encoding} {background : Option Color} {theme : Theme}

/-- A new writer has nothing to show, and no colour selected. -/
theorem holds_new (encoding : Encoding) (surface : Surface) :
    Holds { encoding, surface } encoding none [] :=
  ⟨rfl, rfl, [], written_new encoding surface, rfl⟩

/-- Releasing the background shows nothing, and leaves the colour that the pen then has. -/
theorem Holds.release (holds : Holds writer encoding background content) :
    Holds (writer.release false true) encoding writer.pen.background.release.color content := by
  obtain ⟨hencoding, -, pushed, written, hcontent⟩ := holds
  have hafter : Written (writer.after (.release false true)) pushed := written.after nofun
  exact ⟨hencoding, rfl, pushed, hafter, hcontent⟩

/-- A text is added in the colours selected. -/
theorem Holds.push (holds : Holds writer encoding background content) {text : String}
    (accepts : encoding.Accepts text.toList) :
    Holds (writer.push text) encoding background
      (content ++ text.toList.map fun c => ⟨c, writer.pen.foreground.color, background⟩) := by
  obtain ⟨rfl, rfl, pushed, written, rfl⟩ := holds
  have hafter : Written (writer.after (.push text)) (writer.noted pushed (.push text)) := by
    refine written.after fun other hother => ?_
    obtain rfl := Action.push.inj hother
    exact accepts
  refine ⟨congrArg Prod.fst (target_push writer text), (sameColors_push writer text .background).symm,
    _, hafter, ?_⟩
  rw [noted, List.map_append, List.map_map]
  rfl

/-- A paint with a colour selects it for the characters. -/
theorem paint_eq {paint : Paint} {color : Color} (hcolor : paint.color? theme = some color)
    (writer : Writer) : writer.paint theme paint = writer.select .foreground color := by
  cases paint with
  | color chosen =>
    obtain rfl := Option.some.inj hcolor
    rfl
  | ellipsis =>
    obtain rfl := Option.some.inj hcolor
    rfl
  | keep | resetBackground => cases hcolor

/-- A segment adds its characters in its colour. -/
theorem Holds.pushSegment (holds : Holds writer encoding background content) {segment : Segment}
    (colored : (segment.paint.color? theme).isSome) (accepts : encoding.Accepts segment.text.toList) :
    Holds (writer.pushSegment theme segment) encoding background
      (content ++ segment.cells theme background) := by
  obtain ⟨color, hcolor⟩ := Option.isSome_iff_exists.mp colored
  have hselected : Holds (writer.select .foreground color) encoding background content := by
    obtain ⟨hencoding, hbackground, pushed, written, hcontent⟩ := holds
    have hafter : Written (writer.after (.select .foreground color)) pushed := written.after nofun
    exact ⟨hencoding, hbackground, pushed, hafter, hcontent⟩
  have hforeground : (writer.select .foreground color).pen.foreground.color = some color :=
    Ink.color_select _ color
  have hpushed := hselected.push accepts
  rw [hforeground, ← hcolor] at hpushed
  rw [Writer.pushSegment, paint_eq hcolor]
  exact hpushed

/-- **A line adds its characters in the colours of its segments.** -/
theorem Holds.pushLine (holds : Holds writer encoding background content) {line : Line}
    (legible : line.Legible theme encoding) :
    Holds (writer.pushLine theme line) encoding background (content ++ line.cells theme background) := by
  obtain ⟨segments⟩ := line
  unfold Writer.pushLine Line.cells
  dsimp only
  induction segments generalizing writer content with
  | nil => simpa using holds
  | cons segment rest ih =>
    obtain ⟨⟨colored, accepts⟩, hrest⟩ := List.forall_mem_cons.mp legible
    rw [List.foldl_cons, List.flatMap_cons, ← List.append_assoc]
    exact ih (holds.pushSegment colored accepts) hrest

/-- What is shown of the call by which a writer hands its text over are the characters it holds. -/
theorem Holds.cells_call (holds : Holds writer encoding background content) :
    ∃ cells, writer.call.cells? encoding = some cells ∧
      cells.map Cell.plainBreak = content.map fun cell => (encoding.cell cell).plainBreak := by
  obtain ⟨rfl, -, pushed, written, rfl⟩ := holds
  rw [List.map_map]
  exact written.cells_call

/-- A line goes to no surface. -/
theorem target_pushLine (theme : Theme) (writer : Writer) (line : Line) :
    (writer.pushLine theme line).target = writer.target := by
  have hpaint : ∀ (writer : Writer) (paint : Paint), (writer.paint theme paint).target = writer.target := by
    intro writer paint
    cases paint <;> rfl
  unfold Writer.pushLine
  induction line.segments generalizing writer with
  | nil => rfl
  | cons segment rest ih => rw [List.foldl_cons, ih, Writer.pushSegment, target_push, hpaint]

/-- A line is not handed over to the surface. -/
theorem surface_pushLine (theme : Theme) (writer : Writer) (line : Line) :
    (writer.pushLine theme line).surface = writer.surface :=
  congrArg Prod.snd (target_pushLine theme writer line)

end Writer

end BoxTree
