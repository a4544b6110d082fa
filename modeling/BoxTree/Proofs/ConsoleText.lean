import BoxTree.Console.Reader
import BoxTree.Proofs.WriterRuns

namespace BoxTree

/-!
# What a script console shows of a writer's text

* `Console.readFrom?_quoteChars`, `Console.shownChars_quoteChars_append` — a quoted text is read as
  itself, whatever comes after it.
* `Writer.StyledAs` — a character is shown in the style of its pen.
* `Writer.Formats` — how the text of a writer is read, and what its reader knows at the end.
* `Writer.Formats.directed`, `Writer.Formats.quoted`, `Writer.Formats.after` — what each step adds.
* `Writer.Formats.printed_call` — what a flush comes to.
* `console_shows_pushed` — the same for every run of a writer, and for its flushes.
-/

/-! ### Quoted text -/

namespace Console

theorem quoteChars_append (cs ds : List Char) :
    quoteChars (cs ++ ds) = quoteChars cs ++ quoteChars ds := by
  induction cs with
  | nil => rfl
  | cons c cs ih =>
    rw [List.cons_append, quoteChars, quoteChars, ih]
    split <;> rfl

/-- A quoted text takes no style, and shows itself in the present one. -/
theorem readFrom?_quoteChars (style : Option String) (styles : List String) (cs rest : List Char) :
    readFrom? style styles (quoteChars cs ++ rest) =
      (readFrom? style styles rest).map fun result =>
        ((cs.map fun c => ⟨c, style⟩) ++ result.1, result.2) := by
  induction cs with
  | nil => simp [quoteChars]
  | cons c cs ih =>
    by_cases hc : c = '%'
    · rw [quoteChars, if_pos hc, List.cons_append, List.cons_append, readFrom?, ih, Option.map_map, hc]
      rfl
    · rw [quoteChars, if_neg hc, List.cons_append, readFrom?.eq_4, ih, Option.map_map]
      · rfl
      · simp [hc]
      · simp [hc]

/-- A quoted text is shown as it was, whatever comes after it. -/
theorem shownChars_quoteChars_append (cs rest : List Char) :
    shownChars (quoteChars cs ++ rest) = cs ++ shownChars rest := by
  induction cs with
  | nil => rfl
  | cons c cs ih =>
    by_cases hc : c = '%'
    · rw [quoteChars, if_pos hc, List.cons_append, List.cons_append, shownChars, ih, hc]
      rfl
    · rw [quoteChars, if_neg hc, List.cons_append, shownChars.eq_3, ih]
      · rfl
      · simp [hc]
      · simp [hc]

/-- The style of a pen depends on its colours alone. -/
theorem style_congr {pen other : Pen} (h : Pen.SameColors pen other) : style pen = style other := by
  have hforeground : pen.foreground.color = other.foreground.color := h .foreground
  have hbackground : pen.background.color = other.background.color := h .background
  rw [style, style, hforeground, hbackground]

end Console

open Console

namespace Writer

variable {writer : Writer} {pushed : List (Char × Pen)} {chars : List StyledChar} {now : Option String}
  {pen : Pen}

/-! ### Reading what a writer has written -/

/-- A style is the one of a pen. There may be none at all only for a pen without colours. -/
def InStyle (style : Option String) (pen : Pen) : Prop :=
  style = some (Console.style pen) ∨
    (style = none ∧ pen.foreground.color = none ∧ pen.background.color = none)

/-- A character is shown in the style of its pen. -/
def StyledAs (cell : StyledChar) (entry : Char × Pen) : Prop :=
  cell.char = entry.1 ∧ InStyle cell.style entry.2

/-- However it goes on, the text of a writer is read as these characters, takes the styles of the writer,
    and leaves the reader in the style `now`. -/
structure Formats (writer : Writer) (pushed : List (Char × Pen)) (chars : List StyledChar)
    (now : Option String) : Prop where
  encoding : writer.encoding = .scriptConsole
  reads : ∀ more rest,
    readFrom? none (writer.styles ++ more) (writer.text.toList ++ rest) =
      (readFrom? now more rest).map fun result => (chars ++ result.1, result.2)
  styled : List.Forall₂ StyledAs chars pushed
  shown : ∀ rest,
    shownChars (writer.text.toList ++ rest) = pushed.map Prod.fst ++ shownChars rest
  literal : writer.styles = [] → writer.text.toList = quoteChars (pushed.map Prod.fst)
  settled : writer.pen.isPending = false → InStyle now writer.pen

theorem InStyle.congr {style : Option String} {other : Pen} (h : InStyle style pen)
    (hsame : Pen.SameColors pen other) : InStyle style other := by
  obtain rfl | ⟨rfl, hforeground, hbackground⟩ := h
  · exact .inl (by rw [style_congr hsame])
  · exact .inr ⟨rfl, (hsame .foreground).symm.trans hforeground,
      (hsame .background).symm.trans hbackground⟩

/-- A text that has just been dropped is read in no style. -/
theorem formats_clear (hencoding : writer.encoding = .scriptConsole) :
    Formats writer.clear [] [] none where
  encoding := hencoding
  reads more rest := by
    show readFrom? none more rest = _
    simp
  styled := .nil
  shown _ := rfl
  literal _ := rfl
  settled h := by cases h

theorem formats_new (surface : Surface) :
    Formats { encoding := .scriptConsole, surface } [] [] none where
  encoding := rfl
  reads more rest := by
    show readFrom? none more rest = _
    simp
  styled := .nil
  shown _ := rfl
  literal _ := rfl
  settled _ := .inr ⟨rfl, rfl, rfl⟩

/-! ### What each step adds -/

/-- A placeholder takes the style of the pen. -/
theorem Formats.directed (formats : Formats writer pushed chars now) :
    ∃ now, Formats
      { (if writer.pen.isPending then writer.direct else writer) with pen := writer.pen.settle }
      pushed chars now := by
  have hcolors : Pen.SameColors writer.pen writer.pen.settle :=
    Pen.sameColors_settle (Pen.SameColors.refl writer.pen)
  by_cases hpending : writer.pen.isPending = true
  · have hdirect : writer.direct = { writer with
        text := writer.text ++ placeholder, styles := writer.styles ++ [Console.style writer.pen] } := by
      unfold direct
      rw [formats.encoding]
    -- The placeholder is behind whatever was read, and takes the style behind the others.
    have hplaceholder : placeholder.toList = ['%', 'c'] := rfl
    rw [if_pos hpending, hdirect]
    refine ⟨some (Console.style writer.pen), formats.encoding, fun more rest => ?_, formats.styled,
      fun rest => ?_, ?_, fun _ => .inl (by rw [style_congr hcolors])⟩
    · rw [String.toList_append, hplaceholder, List.append_assoc, List.append_assoc, formats.reads]
      rfl
    · rw [String.toList_append, hplaceholder, List.append_assoc, formats.shown]
      rfl
    · simp
  -- Nothing is pending: the reader is in the right style already.
  · have hsettled := formats.settled (Bool.eq_false_iff.mpr hpending)
    rw [if_neg hpending]
    exact ⟨now, formats.encoding, formats.reads, formats.styled, formats.shown, formats.literal,
      fun _ => hsettled.congr hcolors⟩

/-- A quoted text is read in the style of the pen. -/
theorem Formats.quoted (formats : Formats writer pushed chars now) (hpending : writer.pen.isPending = false)
    (hpen : Pen.SameColors writer.pen pen) (text : String) :
    Formats { writer with text := writer.text ++ Console.quote text }
      (pushed ++ text.toList.map fun c => (c, pen)) (chars ++ text.toList.map fun c => ⟨c, now⟩) now := by
  have hquote : (Console.quote text).toList = quoteChars text.toList := by
    rw [Console.quote, String.toList_ofList]
  have hchars : (text.toList.map fun c => (c, pen)).map Prod.fst = text.toList := by
    rw [List.map_map]
    exact List.map_id _
  refine ⟨formats.encoding, fun more rest => ?_, ?_, fun rest => ?_, fun h => ?_, formats.settled⟩
  · rw [String.toList_append, hquote, List.append_assoc, formats.reads, readFrom?_quoteChars,
      Option.map_map]
    simp only [Function.comp_def, List.append_assoc]
  -- Every new character is read in the present style.
  · have hstyle := (formats.settled hpending).congr hpen
    refine List.rel_append formats.styled
      (List.forall₂_map_left_iff.mpr (List.forall₂_map_right_iff.mpr ?_))
    exact List.forall₂_same.mpr fun c _ => ⟨rfl, hstyle⟩
  · rw [String.toList_append, hquote, List.append_assoc, formats.shown, shownChars_quoteChars_append,
      List.map_append, hchars, List.append_assoc]
  · rw [String.toList_append, hquote, formats.literal h, List.map_append, hchars, quoteChars_append]

/-- **A text is read in the style of the pen**, whatever percent signs it has. -/
theorem Formats.push (formats : Formats writer pushed chars now) (text : String) :
    ∃ chars now, Formats (writer.push text) (pushed ++ text.toList.map fun c => (c, writer.pen)) chars now := by
  obtain ⟨now, directed⟩ := formats.directed
  have hcolors : Pen.SameColors writer.pen.settle writer.pen := fun side =>
    (Pen.sameColors_settle (Pen.SameColors.refl writer.pen) side).symm
  have hpush : writer.push text =
      { (if writer.pen.isPending then writer.direct else writer) with
        text := (if writer.pen.isPending then writer.direct else writer).text ++ Console.quote text
        pen := writer.pen.settle } := by
    unfold Writer.push pushUnbroken spelled
    simp only [formats.encoding]
  rw [hpush]
  exact ⟨_, _, directed.quoted rfl hcolors text⟩

/-- Every action is kept up with. -/
theorem Formats.after (formats : Formats writer pushed chars now) (action : Action) :
    ∃ chars now, Formats (writer.after action) (writer.noted pushed action) chars now := by
  cases action with
  | push text => exact formats.push text
  | select side color =>
    refine ⟨chars, now, formats.encoding, formats.reads, formats.styled, formats.shown, formats.literal,
      fun h => ?_⟩
    have hsame : writer.pen.select color side = writer.pen := Pen.select_eq h
    show InStyle now (writer.pen.select color side)
    rw [hsame]
    exact formats.settled (by rw [← hsame]; exact h)
  | release foreground background =>
    refine ⟨chars, now, formats.encoding, formats.reads, formats.styled, formats.shown, formats.literal,
      fun h => ?_⟩
    have hsame : writer.pen.release foreground background = writer.pen := Pen.release_eq h
    show InStyle now (writer.pen.release foreground background)
    rw [hsame]
    exact formats.settled (by rw [← hsame]; exact h)
  | flush =>
    obtain ⟨surface, hflush⟩ := after_flush writer
    rw [hflush]
    exact ⟨chars, now, formats.encoding, formats.reads, formats.styled, formats.shown,
      formats.literal, formats.settled⟩
  | clear => exact ⟨[], none, formats_clear formats.encoding⟩

/-! ### Reading the whole text -/

/-- The whole text takes all styles and is read as these characters. -/
theorem Formats.read?_eq (formats : Formats writer pushed chars now) :
    Console.read? writer.text writer.styles = some (chars, []) := by
  have h := formats.reads [] []
  rw [List.append_nil, List.append_nil, readFrom?, Option.map_some, List.append_nil] at h
  exact h

/-- Without its placeholders the text is what was pushed. -/
theorem Formats.shown_eq (formats : Formats writer pushed chars now) :
    Console.shown writer.text = String.ofList (pushed.map Prod.fst) := by
  have h := formats.shown []
  rw [List.append_nil, shownChars, List.append_nil] at h
  rw [Console.shown, h]

/-- A flush hands over the text that was pushed, or the format string with its styles. -/
theorem Formats.call_eq (formats : Formats writer pushed chars now) :
    (writer.styles = [] → writer.call = { text := String.ofList (pushed.map Prod.fst) }) ∧
      (writer.styles ≠ [] → writer.call = { text := writer.text, styles := writer.styles }) := by
  unfold Writer.call
  rw [formats.encoding]
  constructor
  · intro hstyles
    have hunquote : Console.unquote writer.text = String.ofList (pushed.map Prod.fst) := by
      rw [Console.unquote, formats.literal hstyles, unquoteChars_quoteChars]
    simp only [hstyles, List.isEmpty_nil, if_pos, hunquote]
  · intro hstyles
    have hne : writer.styles.isEmpty = false := by simpa using hstyles
    simp only [hne]
    rfl

/-- Either way standard output prints what was pushed, on a line of its own. -/
theorem Formats.printed_call (formats : Formats writer pushed chars now) :
    writer.call.printed = String.ofList (pushed.map Prod.fst) ++ "\n" := by
  by_cases hstyles : writer.styles = []
  · rw [formats.call_eq.1 hstyles]
    rfl
  · have hne : writer.styles.isEmpty = false := by simpa using hstyles
    rw [formats.call_eq.2 hstyles, Call.printed]
    simp only [hne, formats.shown_eq]
    rfl

end Writer

/-- **A console shows what is pushed.** After any run of a new writer, reading its text as a format
    string takes exactly its styles and shows the characters pushed since the text was dropped last, each
    in the style of the colours that the writer's pen had selected at that moment. Without its
    placeholders the text is these characters, which is what a flush without styles hands over, and what
    standard output prints on a line of its own. Only a full surface can refuse. -/
theorem console_shows_pushed (surface : Surface) (actions : List Writer.Action) :
    let new : Writer := { encoding := .scriptConsole, surface }
    let writer := new.run actions
    let pushed := new.pushedFrom [] actions
    let text := String.ofList (pushed.map Prod.fst)
    (∃ chars, Console.read? writer.text writer.styles = some (chars, []) ∧
        List.Forall₂ Writer.StyledAs chars pushed) ∧
      Console.shown writer.text = text ∧
      (∃ call, writer.flush = (writer.surface.log call).map (fun surface => { writer with surface }) ∧
        (writer.styles = [] → call = { text := text }) ∧
        (writer.styles ≠ [] → call = { text := writer.text, styles := writer.styles })) ∧
      (surface.room = none → ∃ flushed, writer.flush = .ok flushed) ∧
      ∀ flushed, writer.flush = .ok flushed → surface.kind = .standardOutput →
        flushed.surface.printed = writer.surface.printed ++ text ++ "\n" := by
  intro new writer pushed text
  obtain ⟨chars, now, formats⟩ : ∃ chars now, Writer.Formats writer pushed chars now := by
    refine Writer.run_keeps (motive := fun w p => ∃ chars now, Writer.Formats w p chars now)
      ?_ ⟨[], none, Writer.formats_new surface⟩
    intro w p action _ ⟨chars, now, formats⟩
    exact formats.after action
  refine ⟨⟨chars, formats.read?_eq, formats.styled⟩, formats.shown_eq,
    ⟨writer.call, Writer.flush_eq writer, formats.call_eq⟩,
    fun hroom => Writer.flush_run_of_room hroom actions, fun flushed hflush hkind => ?_⟩
  obtain ⟨hlog, -⟩ := Writer.log_of_flush hflush
  have hstandard : writer.surface.kind = .standardOutput :=
    (Writer.encoding_kind_run new actions).2.trans hkind
  rw [Surface.printed_of_log hlog hstandard, formats.printed_call, String.append_assoc]

/-- A text with percent signs of its own, printed with and without colours. -/
theorem console_prints_percent_signs :
    let new : Writer := { encoding := .scriptConsole }
    let actions : List Writer.Action := [.push "100%c", .select .foreground (.basic 1), .push "%"]
    ∃ flushed, (new.run actions).flush = .ok flushed ∧
      flushed.surface.printed =
        (new.run actions).surface.printed ++
          String.ofList ((new.pushedFrom [] actions).map Prod.fst) ++ "\n" := by
  intro new actions
  obtain ⟨-, -, -, hflush, hprinted⟩ := console_shows_pushed .standardOutput actions
  obtain ⟨flushed, hflushed⟩ := hflush rfl
  exact ⟨flushed, hflushed, hprinted flushed hflushed rfl⟩

example :
    (Writer.run { encoding := .scriptConsole } [.push "100%", .push "%c"]).call =
      { text := "100%%c" } := by
  decide +kernel

end BoxTree
