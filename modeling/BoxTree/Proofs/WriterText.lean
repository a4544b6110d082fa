import BoxTree.Proofs.SgrReading
import BoxTree.Proofs.WriterRuns

namespace BoxTree

/-!
# The text of a writer

Whatever characters are pushed, the text of a writer grows by these characters as its encoding spells
them, and by directives in between. What a terminal makes of the text is another matter: the characters
may themselves look like directives.

* `Encoding.Writes` — characters written with directives in between, and the styles of those.
* `Writer.Adds` — the text of a writer has grown by characters and directives.
* `Writer.adds_push`, `Writer.adds_pushLine` — what is added by a text, and by a line.
* `Call.Carries` — a call with characters behind a text that was there before.
-/

namespace Encoding

variable {encoding : Encoding} {characters more written rest : String} {styles others : List String}

/-- Characters as the encoding writes them: spelled one after the other, with directives in between. Every
    placeholder comes with a style. -/
inductive Writes (encoding : Encoding) : String → String → List String → Prop where
  | nothing : Writes encoding "" "" []
  | spelled {characters written : String} {styles : List String} (more : String)
      (before : Writes encoding characters written styles) :
      Writes encoding (characters ++ more) (written ++ Writer.spelled encoding more) styles
  | sequence {characters written : String} {styles : List String} {support : Support}
      (terminal : encoding = .terminal support) (params : List Sgr.Param)
      (before : Writes encoding characters written styles) :
      Writes encoding characters (written ++ Sgr.sequence params) styles
  | placeholder {characters written : String} {styles : List String} (console : encoding = .scriptConsole)
      (style : String) (before : Writes encoding characters written styles) :
      Writes encoding characters (written ++ Console.placeholder) (styles ++ [style])

theorem Writes.append (first : encoding.Writes characters written styles)
    (second : encoding.Writes more rest others) :
    encoding.Writes (characters ++ more) (written ++ rest) (styles ++ others) := by
  induction second with
  | nothing => simpa using first
  | spelled more _ ih =>
    rw [← String.append_assoc, ← String.append_assoc]
    exact .spelled more ih
  | sequence terminal params _ ih =>
    rw [← String.append_assoc]
    exact .sequence terminal params ih
  | placeholder console style _ ih =>
    rw [← String.append_assoc, ← List.append_assoc]
    exact .placeholder console style ih

/-- A text as the encoding spells it. -/
theorem writes_spelled (encoding : Encoding) (characters : String) :
    encoding.Writes characters (Writer.spelled encoding characters) [] := by
  have hspelled : encoding.Writes _ _ _ := .spelled characters .nothing
  rwa [String.empty_append, String.empty_append] at hspelled

/-- Plain text has no directives. -/
theorem Writes.plain (writes : Encoding.plain.Writes characters written styles) :
    written = characters ∧ styles = [] := by
  induction writes with
  | nothing => exact ⟨rfl, rfl⟩
  | spelled more _ ih => exact ⟨congrArg (· ++ more) ih.1, ih.2⟩
  | sequence terminal => cases terminal
  | placeholder console => cases console

end Encoding

/-! ### What pushing adds -/

namespace Writer

variable {writer first second third : Writer} {characters more : String}

/-- From one writer to another the text has grown by these characters, and by directives. -/
structure Adds (first : Writer) (characters : String) (second : Writer) : Prop where
  target : second.target = first.target
  written : ∃ text styles, first.encoding.Writes characters text styles ∧
    second.text = first.text ++ text ∧ second.styles = first.styles ++ styles

/-- Changes of the pen add nothing. -/
theorem adds_pen (writer : Writer) (pen : Pen) : writer.Adds "" { writer with pen } :=
  ⟨rfl, "", [], .nothing, String.append_empty.symm, (List.append_nil _).symm⟩

theorem Adds.trans (before : first.Adds characters second) (after : second.Adds more third) :
    first.Adds (characters ++ more) third := by
  obtain ⟨htarget, text, styles, hwrites, htext, hstyles⟩ := before
  obtain ⟨hnext, rest, others, hrest, hlast, hothers⟩ := after
  have hencoding : second.encoding = first.encoding := congrArg Prod.fst htarget
  rw [hencoding] at hrest
  refine ⟨hnext.trans htarget, text ++ rest, styles ++ others, hwrites.append hrest, ?_, ?_⟩
  · rw [hlast, htext, String.append_assoc]
  · rw [hothers, hstyles, List.append_assoc]

/-- A directive adds no characters. -/
theorem adds_direct (writer : Writer) : writer.Adds "" writer.direct := by
  unfold direct
  split
  · exact adds_pen writer writer.pen
  · next support hencoding =>
    refine ⟨rfl, _, [], .sequence hencoding (terminalParams support writer.pen) .nothing, ?_,
      (List.append_nil _).symm⟩
    rw [String.empty_append]
  · next hencoding =>
    refine ⟨rfl, _, _, .placeholder hencoding (Console.style writer.pen) .nothing, ?_, rfl⟩
    rw [String.empty_append]

/-- A text without breaks adds its characters. -/
theorem adds_pushUnbroken (writer : Writer) (run : String) : writer.Adds run (writer.pushUnbroken run) := by
  have hspelled : ∀ directed : Writer, writer.Adds "" directed →
      writer.Adds run
        { directed with
          text := directed.text ++ spelled writer.encoding run
          pen := writer.pen.settle } := by
    intro directed hdirected
    have hencoding : directed.encoding = writer.encoding := congrArg Prod.fst hdirected.target
    have hrun : directed.Adds run
        { directed with
          text := directed.text ++ spelled writer.encoding run
          pen := writer.pen.settle } := by
      refine ⟨rfl, _, [], ?_, rfl, (List.append_nil _).symm⟩
      rw [← hencoding]
      exact Encoding.writes_spelled _ run
    have hadded := hdirected.trans hrun
    rwa [String.empty_append] at hadded
  unfold pushUnbroken
  dsimp only
  split
  · exact hspelled _ (adds_direct writer)
  · exact hspelled _ (adds_pen writer writer.pen)

/-- A break between the rows of a terminal adds a line feed. -/
theorem adds_breakRow {support : Support} (terminal : writer.encoding = .terminal support) :
    writer.Adds "\n" writer.breakRow := by
  have hbreak : ∀ text, writer.encoding.Writes "" text [] →
      writer.encoding.Writes "\n" (text ++ "\n") [] := by
    intro text hwrites
    have hspelled := hwrites.spelled "\n"
    rw [String.empty_append, terminal] at hspelled
    rw [terminal]
    exact hspelled
  unfold breakRow
  split
  · refine ⟨rfl, _, [], hbreak _ (.sequence terminal [.reset] .nothing), ?_, (List.append_nil _).symm⟩
    rw [String.empty_append, ← String.append_assoc]
    rfl
  · refine ⟨rfl, _, [], hbreak _ .nothing, ?_, (List.append_nil _).symm⟩
    rw [String.empty_append]

/-- Rows of a terminal add their characters, with a line feed before each row. -/
theorem adds_pushRows {support : Support} (terminal : writer.encoding = .terminal support)
    (rows : List String) :
    writer.Adds (String.join (rows.map ("\n" ++ ·))) (writer.pushRows rows) := by
  induction rows generalizing writer with
  | nil => exact adds_pen writer writer.pen
  | cons row rest ih =>
    have hrow := (adds_breakRow terminal).trans (adds_pushUnbroken writer.breakRow row)
    have hencoding : (writer.breakRow.pushUnbroken row).encoding = .terminal support :=
      (congrArg Prod.fst hrow.target).trans terminal
    rw [List.map_cons, String.join_cons]
    exact hrow.trans (ih hencoding)

/-- The rows of a text and the line feeds between them make up the text. -/
theorem eq_of_rows {text row : String} {rest : List String} (h : Text.rows text = row :: rest) :
    text = row ++ String.join (rest.map ("\n" ++ ·)) := by
  unfold Text.rows at h
  obtain ⟨piece, pieces, hsplit, rfl, rfl⟩ := List.map_eq_cons_iff.mp h
  obtain ⟨htext, -, -⟩ := Text.splitOn_eq_cons hsplit
  have hjoin : String.join (pieces.map fun piece => "\n" ++ String.ofList piece) =
      String.ofList (pieces.flatMap ('\n' :: ·)) := by
    clear hsplit h htext
    induction pieces with
    | nil => rfl
    | cons piece pieces ih =>
      have hbreak : "\n" ++ String.ofList piece = String.ofList ('\n' :: piece) := by
        rw [← List.singleton_append, String.ofList_append]
      rw [List.map_cons, String.join_cons, ih, List.flatMap_cons, String.ofList_append, hbreak]
  rw [← String.ofList_toList (s := text), htext, String.ofList_append, List.map_map]
  exact congrArg _ hjoin.symm

/-- **A text adds its characters**, and no others. -/
theorem adds_push (writer : Writer) (text : String) : writer.Adds text (writer.push text) := by
  unfold push
  cases hencoding : writer.encoding with
  | plain | scriptConsole => exact adds_pushUnbroken writer text
  | terminal support =>
    dsimp only
    cases hrows : Text.rows text with
    | nil =>
      have hnone := List.map_eq_nil_iff.mp hrows
      exact absurd hnone (Text.splitOn_ne_nil _)
    | cons row rest =>
      have hrow := adds_pushUnbroken writer row
      have hterminal : (writer.pushUnbroken row).encoding = .terminal support :=
        (congrArg Prod.fst hrow.target).trans hencoding
      rw [eq_of_rows hrows]
      exact hrow.trans (adds_pushRows hterminal rest)

/-- Releasing sides adds nothing. -/
theorem adds_release (writer : Writer) (foreground background : Bool) :
    writer.Adds "" (writer.release foreground background) := adds_pen writer _

theorem adds_pushSegment (theme : Theme) (writer : Writer) (segment : Segment) :
    writer.Adds segment.text (writer.pushSegment theme segment) := by
  have hpaint : writer.Adds "" (writer.paint theme segment.paint) := by
    cases segment.paint <;> exact adds_pen writer _
  have hpushed := hpaint.trans (adds_push _ segment.text)
  rwa [String.empty_append] at hpushed

/-- **A line adds the texts of its segments.** -/
theorem adds_pushLine (theme : Theme) (writer : Writer) (line : Line) :
    writer.Adds line.plain (writer.pushLine theme line) := by
  unfold Writer.pushLine Line.plain
  induction line.segments generalizing writer with
  | nil => exact adds_pen writer writer.pen
  | cons segment rest ih =>
    rw [List.map_cons, String.join_cons]
    exact (adds_pushSegment theme writer segment).trans (ih _)

end Writer

/-! ### What a call carries -/

/-- A call that hands these characters over behind a text, and behind the styles of that text. -/
def Call.Carries (call : Call) (encoding : Encoding) (text : String) (styles : List String)
    (characters : String) : Prop :=
  ∃ written others, encoding.Writes characters written others ∧
    call = ({ encoding, text := text ++ written, styles := styles ++ others } : Writer).call

/-- A writer hands over what has been added to its text. -/
theorem Writer.Adds.carries {first second : Writer} {characters : String}
    (adds : first.Adds characters second) :
    second.call.Carries first.encoding first.text first.styles characters := by
  obtain ⟨htarget, text, styles, hwrites, htext, hstyles⟩ := adds
  have hencoding : second.encoding = first.encoding := congrArg Prod.fst htarget
  refine ⟨text, styles, hwrites, ?_⟩
  unfold Writer.call
  rw [hencoding, htext, hstyles]

/-- Plain text is handed over as it is, and without styles. -/
theorem Call.Carries.eq_plain {call : Call} {text characters : String} {styles : List String}
    (carries : call.Carries .plain text styles characters) : call = { text := text ++ characters } := by
  obtain ⟨written, others, hwrites, rfl⟩ := carries
  rw [hwrites.plain.1]
  rfl

end BoxTree
