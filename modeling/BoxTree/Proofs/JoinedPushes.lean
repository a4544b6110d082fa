import BoxTree.Proofs.ConsoleText
import BoxTree.Proofs.WriterText

namespace BoxTree

/-!
# Pushing text in pieces

A text is written row by row, and what the pen selects is written before a row only if it is pending. So it
does not matter where a text is cut: the pieces come to the same text, the same styles and the same pen as
the whole.

* `Text.rows_newline`, `Text.rows_char` — the rows of a text, from its first character on.
* `Writer.pushUnbroken_pushUnbroken` — runs without breaks are joined.
* `Writer.push_newline`, `Writer.push_char` — a terminal's text, from its first character on.
* `Writer.push_push` — texts are joined.
* `pushes_join` — the same for any number of texts, with the characters that they add.
-/

/-! ### Rows from the first character on -/

namespace Text

/-- A text has at least one row. -/
theorem exists_rows (text : String) : ∃ row rest, rows text = row :: rest := by
  obtain ⟨piece, pieces, h⟩ := exists_splitOn '\n' text.toList
  exact ⟨String.ofList piece, pieces.map String.ofList, by rw [rows, splitRows, h, List.map_cons]⟩

/-- A line break at the beginning makes an empty row. -/
theorem rows_newline (cs : List Char) :
    rows (String.ofList ('\n' :: cs)) = "" :: rows (String.ofList cs) := by
  simp [rows, splitRows, splitOn]

/-- A character that is no line feed goes in front of the first row. -/
theorem rows_char {c : Char} (hc : c ≠ '\n') {cs : List Char} {row : String} {rest : List String}
    (h : rows (String.ofList cs) = row :: rest) :
    rows (String.ofList (c :: cs)) = (String.ofList [c] ++ row) :: rest := by
  unfold rows splitRows at h ⊢
  rw [String.toList_ofList] at h ⊢
  obtain ⟨piece, pieces, hsplit, rfl, rfl⟩ := List.map_eq_cons_iff.mp h
  simp only [splitOn, if_neg hc, hsplit, List.map_cons, ← String.ofList_append, List.singleton_append]

end Text

/-- Where nothing is pending, there is nothing to settle. -/
theorem Pen.settle_eq {pen : Pen} (settled : pen.isPending = false) : pen.settle = pen := by
  obtain ⟨⟨fg, _ | _⟩, ⟨bg, _ | _⟩⟩ := pen
  · rfl
  all_goals cases settled

namespace Writer

variable {writer : Writer} {support : Support}

/-! ### Runs without breaks -/

/-- Texts are spelled character by character. -/
theorem spelled_append (encoding : Encoding) (text more : String) :
    spelled encoding (text ++ more) = spelled encoding text ++ spelled encoding more := by
  cases encoding with
  | plain | terminal => rfl
  | scriptConsole =>
    simp only [spelled, Console.quote, String.toList_append, Console.quoteChars_append,
      String.ofList_append]

/-- Where nothing is pending, a run is only appended. -/
theorem pushUnbroken_of_settled (settled : writer.pen.isPending = false) (run : String) :
    writer.pushUnbroken run = { writer with text := writer.text ++ spelled writer.encoding run } := by
  have hpen : writer.pen.settle = writer.pen := Pen.settle_eq settled
  simp only [pushUnbroken, settled, hpen, Bool.false_eq_true, if_false]

/-- **Runs without breaks are joined.** The first one leaves nothing pending, so the second one writes no
    directive. -/
theorem pushUnbroken_pushUnbroken (writer : Writer) (run more : String) :
    (writer.pushUnbroken run).pushUnbroken more = writer.pushUnbroken (run ++ more) := by
  have hmore : spelled (writer.pushUnbroken run).encoding more = spelled writer.encoding more := by
    rw [encoding_pushUnbroken]
  rw [pushUnbroken_of_settled (Pen.isPending_settle writer.pen), hmore]
  simp only [pushUnbroken, spelled_append, String.append_assoc]

/-! ### Rows of a terminal -/

/-- On a terminal the first row of a text is pushed as it is, the others behind a line break each. -/
theorem push_eq_pushRows (terminal : writer.encoding = .terminal support) {text row : String}
    {rest : List String} (h : Text.rows text = row :: rest) :
    writer.push text = (writer.pushUnbroken row).pushRows rest := by
  simp only [push, terminal, h]

/-- To push nothing is to push an empty row. -/
theorem push_empty (writer : Writer) : writer.push "" = writer.pushUnbroken "" := by
  unfold push
  split
  · rfl
  · rfl
  · rfl

/-- A run is the beginning of the text behind it. -/
theorem pushUnbroken_push (terminal : writer.encoding = .terminal support) {run text row : String}
    {rest : List String} (h : Text.rows text = row :: rest) :
    (writer.pushUnbroken run).push text = (writer.pushUnbroken (run ++ row)).pushRows rest := by
  have hterminal : (writer.pushUnbroken run).encoding = .terminal support :=
    (encoding_pushUnbroken writer run).trans terminal
  rw [push_eq_pushRows hterminal h, pushUnbroken_pushUnbroken]

/-- On a terminal, a line break at the beginning of a text breaks the row before the rest is pushed. -/
theorem push_newline (terminal : writer.encoding = .terminal support) (cs : List Char) :
    writer.push (String.ofList ('\n' :: cs)) =
      (writer.pushUnbroken "").breakRow.push (String.ofList cs) := by
  obtain ⟨row, rest, h⟩ := Text.exists_rows (String.ofList cs)
  have hterminal : (writer.pushUnbroken "").breakRow.encoding = .terminal support :=
    (congrArg Prod.fst ((target_breakRow _).trans (target_pushUnbroken writer ""))).trans terminal
  rw [push_eq_pushRows hterminal h, push_eq_pushRows terminal (Text.rows_newline cs), h]
  rfl

theorem push_char (terminal : writer.encoding = .terminal support) {c : Char} (hc : c ≠ '\n')
    (cs : List Char) :
    writer.push (String.ofList (c :: cs)) =
      (writer.pushUnbroken (String.ofList [c])).push (String.ofList cs) := by
  obtain ⟨row, rest, h⟩ := Text.exists_rows (String.ofList cs)
  rw [push_eq_pushRows terminal (Text.rows_char hc h), pushUnbroken_push terminal h]

/-! ### Texts -/

/-- Texts of a terminal are joined, wherever the cut falls. -/
theorem push_push_terminal (terminal : writer.encoding = .terminal support) (cs : List Char)
    (more : String) :
    (writer.push (String.ofList cs)).push more = writer.push (String.ofList cs ++ more) := by
  induction cs generalizing writer with
  | nil =>
    obtain ⟨row, rest, h⟩ := Text.exists_rows more
    show (writer.push "").push more = writer.push ("" ++ more)
    rw [push_empty, pushUnbroken_push terminal h, String.empty_append, String.empty_append,
      push_eq_pushRows terminal h]
  | cons c cs ih =>
    have hunbroken : ∀ run, (writer.pushUnbroken run).encoding = .terminal support := fun run =>
      (encoding_pushUnbroken writer run).trans terminal
    have happend : String.ofList (c :: cs) ++ more = String.ofList (c :: (cs ++ more.toList)) := by
      rw [← List.cons_append, String.ofList_append, String.ofList_toList]
    have hrest : String.ofList cs ++ more = String.ofList (cs ++ more.toList) := by
      rw [String.ofList_append, String.ofList_toList]
    rw [happend]
    by_cases hc : c = '\n'
    · subst hc
      have hbroken : (writer.pushUnbroken "").breakRow.encoding = .terminal support :=
        (congrArg Prod.fst (target_breakRow _)).trans (hunbroken "")
      rw [push_newline terminal, push_newline terminal, ih hbroken, hrest]
    · rw [push_char terminal hc, push_char terminal hc, ih (hunbroken _), hrest]

/-- **Texts are joined.** -/
theorem push_push (writer : Writer) (text more : String) :
    (writer.push text).push more = writer.push (text ++ more) := by
  cases hencoding : writer.encoding with
  | terminal support =>
    have hjoined := push_push_terminal hencoding text.toList more
    rwa [String.ofList_toList] at hjoined
  | plain | scriptConsole =>
    have hsame : (writer.push text).encoding = writer.encoding :=
      congrArg Prod.fst (target_push writer text)
    have hunbroken : ∀ w : Writer, w.encoding = writer.encoding → ∀ run, w.push run = w.pushUnbroken run := by
      intro w hw run
      simp only [push, hw, hencoding]
    rw [hunbroken _ hsame, hunbroken writer rfl, hunbroken writer rfl, pushUnbroken_pushUnbroken]

end Writer

/-- **Pushing is joining.** Whatever was done with a writer before, and wherever a text is cut, pushing the
    pieces leaves the writer as pushing the whole does: with the same text, the same styles and the same
    pen. So any number of texts pushed in turn add their characters, and the directives of a single push. -/
theorem pushes_join (writer : Writer) (text more : String) (texts : List String) :
    let joined := String.join (text :: texts)
    (writer.push text).push more = writer.push (text ++ more) ∧
      writer.run ((text :: texts).map .push) = writer.push joined ∧
      writer.Adds joined (writer.run ((text :: texts).map .push)) := by
  intro joined
  have hrun : writer.run ((text :: texts).map .push) = writer.push joined := by
    unfold joined
    induction texts generalizing text with
    | nil => simp [Writer.run, Writer.perform, Except.toOption]
    | cons next rest ih =>
      have hstep : writer.run ((text :: next :: rest).map .push) =
          writer.run (((text ++ next) :: rest).map .push) := by
        show ((writer.push text).push next).run _ = (writer.push (text ++ next)).run _
        rw [Writer.push_push]
      rw [hstep, ih, String.join_cons, String.join_cons, String.join_cons, String.append_assoc]
  refine ⟨Writer.push_push writer text more, hrun, ?_⟩
  rw [hrun]
  exact Writer.adds_push writer joined

end BoxTree
