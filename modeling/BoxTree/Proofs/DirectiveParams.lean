import BoxTree.Output.Pieces
import BoxTree.Proofs.JoinedPushes
import BoxTree.Proofs.NearestEntry
import BoxTree.Proofs.SequencesApart

namespace BoxTree

/-!
# Directives that a terminal understands

Whatever colours are selected, the text of a run is made of rows, line feeds, directives for a pen that is
pending, and the sequences that close a background. A directive has a parameter for each side that is
pending, or one for both, and what it names is in the range of the terminal. The sums that make up codes and
palette entries are bytes.

* `takes_colorParam`, `understands_terminalParams` — the parameters for a pen.
* `Sgr.sequencesIn_pieces` — the sequences of a text are those among its pieces.
* `Writer.Emits`, `Writer.emits_push` — what is added to a text, as pieces.
* `Writer.Consists`, `Writer.Consists.run` — what the text of a run is made of.
* `toNat_basicCode` — the codes of basic colours are exact sums.
* `directives_are_understood` — all of it.
-/

open Sgr

variable {support : Support} {pen : Pen}

/-! ### The parameters for a pen -/

/-- A colour that fits a terminal is one that it takes. -/
theorem takes_colorParam (support : Support) (side : Side) (color : Color) :
    support.Takes (colorParam side (support.fit color)) := by
  have hgray : ∀ rgb : Rgb, Support.grayscale.Takes (.indexed side rgb.nearestGray) := fun rgb =>
    ⟨rgb.rampStart_le_nearestGray, UInt8.le_iff_toNat_le.mpr (Nat.le_of_lt_succ rgb.nearestGray.toNat_lt)⟩
  cases support with
  | truecolor | colorless => trivial
  | palette => cases color <;> trivial
  | grayscale =>
    cases color with
    | basic entry => trivial
    | indexed entry => exact hgray (Color.indexed entry).rgb
    | direct rgb => exact hgray rgb

/-- A pen that is pending on one side or on both has one parameter or two. -/
theorem length_terminalParams (support : Support) (pending : pen.isPending = true) :
    (terminalParams support pen).length = 1 ∨ (terminalParams support pen).length = 2 := by
  obtain ⟨⟨_ | fg, _ | _⟩, ⟨_ | bg, _ | _⟩⟩ := pen <;>
    simp_all [terminalParams, selectedParam, releasedParam, Pen.isPending]

/-- **A terminal understands the directive for a pen that is pending.** -/
theorem understands_terminalParams (support : Support) (pending : pen.isPending = true) :
    support.Understands (terminalParams support pen) where
  length := length_terminalParams support pending
  inRange := fun param hparam => param.valid_iff_inRange.mp (valid_terminalParams support pen param hparam)
  takes := by
    intro param hparam
    obtain ⟨side, color, rfl⟩ | ⟨side, rfl⟩ | ⟨rfl, -⟩ := mem_terminalParams hparam
    · exact takes_colorParam support side color
    · cases support <;> trivial
    · cases support <;> trivial

/-- A directive is a reset if and only if the pen has no colours. -/
theorem terminalParams_reset_iff :
    (.reset ∈ terminalParams support pen ↔ pen.foreground.color = none ∧ pen.background.color = none) ∧
      (.reset ∈ terminalParams support pen → terminalParams support pen = [.reset]) := by
  have hreset : pen.foreground.color = none ∧ pen.background.color = none →
      terminalParams support pen = [.reset] := by
    rintro ⟨hforeground, hbackground⟩
    simp [terminalParams, selectedParam, hforeground, hbackground]
  have hnone : .reset ∈ terminalParams support pen →
      pen.foreground.color = none ∧ pen.background.color = none := by
    intro h
    obtain ⟨side, color, hcolor⟩ | ⟨side, hdefault⟩ | ⟨-, hnone⟩ := mem_terminalParams h
    · cases hfit : support.fit color <;> rw [hfit] at hcolor <;> cases hcolor
    · cases hdefault
    · exact hnone
  exact ⟨⟨hnone, fun h => hreset h ▸ List.mem_singleton_self _⟩, fun h => hreset (hnone h)⟩

/-! ### Pieces -/

/-- A directive is written for a pen that is pending, and rows have no escape characters. -/
def Piece.Sound : Piece → Prop
  | run text => '\x1b' ∉ text.toList
  | directive pen => pen.isPending = true
  | closing | rowEnd => True

/-- **The sequences of a text** are those among its pieces. -/
theorem Sgr.sequencesIn_pieces {pieces : List Piece} (sound : ∀ piece ∈ pieces, piece.Sound) :
    sequencesIn (String.join (pieces.map (Piece.text support))).toList =
      pieces.filterMap (Piece.params? support) := by
  induction pieces with
  | nil => rfl
  | cons piece rest ih =>
    obtain ⟨hfirst, hrest⟩ := List.forall_mem_cons.mp sound
    rw [List.map_cons, String.join_cons, String.toList_append]
    have hsequence : ∀ params, params ≠ [] → (∀ param ∈ params, Param.Valid param) →
        sequencesIn ((Sgr.sequence params).toList ++ (String.join (rest.map (Piece.text support))).toList) =
          params :: rest.filterMap (Piece.params? support) := by
      intro params hparams valid
      rw [Sgr.sequence, String.toList_ofList, sequencesIn_sequenceChars hparams valid, ih hrest]
    cases piece with
    | run text => exact (sequencesIn_append hfirst _).trans (ih hrest)
    | directive pen => exact hsequence _ (terminalParams_ne_nil hfirst) (valid_terminalParams support pen)
    | closing => exact hsequence [.reset] (List.cons_ne_nil _ _) (List.forall_mem_singleton.mpr trivial)
    | rowEnd => exact (sequencesIn_append (by decide : '\x1b' ∉ "\n".toList) _).trans (ih hrest)

namespace Writer

variable {writer next last : Writer} {pieces more : List Piece}

/-- A terminal writer has added sound pieces to its text. -/
structure Emits (support : Support) (writer : Writer) (pieces : List Piece) (next : Writer) : Prop where
  encoding : next.encoding = .terminal support
  text : next.text = writer.text ++ String.join (pieces.map (Piece.text support))
  sound : ∀ piece ∈ pieces, piece.Sound

/-- Nothing has been added to a text that is the same. -/
theorem emits_nil (terminal : writer.encoding = .terminal support) : Emits support writer [] writer :=
  ⟨terminal, String.append_empty.symm, nofun⟩

/-- Pieces added one after the other are added together. -/
theorem Emits.trans (first : Emits support writer pieces next) (second : Emits support next more last) :
    Emits support writer (pieces ++ more) last := by
  refine ⟨second.encoding, ?_, List.forall_mem_append.mpr ⟨first.sound, second.sound⟩⟩
  rw [second.text, first.text, List.map_append, String.join_append, String.append_assoc]

/-- **A run has a directive before it if something is pending.** -/
theorem emits_pushUnbroken (terminal : writer.encoding = .terminal support) {run : String}
    (noEscape : '\x1b' ∉ run.toList) :
    Emits support writer (writer.runPieces run) (writer.pushUnbroken run) := by
  have hencoding := (encoding_pushUnbroken writer run).trans terminal
  unfold runPieces
  cases hpending : writer.pen.isPending with
  | false =>
    refine ⟨hencoding, ?_, List.forall_mem_singleton.mpr noEscape⟩
    simp [pushUnbroken, hpending, terminal, spelled, Piece.text]
  | true =>
    refine ⟨hencoding, ?_, List.forall_mem_cons.mpr ⟨hpending, List.forall_mem_singleton.mpr noEscape⟩⟩
    simp [pushUnbroken, hpending, direct, terminal, spelled, Piece.text, String.append_assoc]

/-- **A row break closes the background**, if there is one, before the line feed. -/
theorem emits_breakRow (terminal : writer.encoding = .terminal support) :
    Emits support writer writer.breakPieces writer.breakRow := by
  have hencoding := (congrArg Prod.fst (target_breakRow writer)).trans terminal
  cases hbackground : writer.pen.background.color with
  | none =>
    refine ⟨hencoding, ?_, ?_⟩ <;> simp [breakRow, breakPieces, hbackground, Piece.text, Piece.Sound]
  | some color =>
    refine ⟨hencoding, ?_, ?_⟩ <;>
      simp [breakRow, breakPieces, hbackground, Piece.text, Piece.Sound, String.append_assoc]

/-- Rows behind the first one are written with a break before each of them. -/
theorem emits_pushRows (terminal : writer.encoding = .terminal support) {rows : List String}
    (noEscape : ∀ row ∈ rows, '\x1b' ∉ row.toList) :
    Emits support writer (writer.rowsPieces rows) (writer.pushRows rows) := by
  induction rows generalizing writer with
  | nil => exact emits_nil terminal
  | cons row rest ih =>
    obtain ⟨hrow, hrest⟩ := List.forall_mem_cons.mp noEscape
    have hbroken := emits_breakRow terminal
    have hpushed := hbroken.trans (emits_pushUnbroken hbroken.encoding hrow)
    exact hpushed.trans (ih hpushed.encoding hrest)

/-- **A text is written in its pieces.** -/
theorem emits_push (terminal : writer.encoding = .terminal support) {text : String}
    (noEscape : '\x1b' ∉ text.toList) :
    Emits support writer (writer.pushPieces text) (writer.push text) := by
  obtain ⟨row, rest, hrows⟩ := Text.exists_rows text
  have hclean : ∀ other ∈ row :: rest, '\x1b' ∉ other.toList := by
    intro other hother hescape
    rw [← hrows] at hother
    obtain ⟨cs, hcs, rfl⟩ := List.mem_map.mp hother
    rw [String.toList_ofList] at hescape
    exact noEscape ((Text.mem_splitOn hcs).1 hescape)
  obtain ⟨hfirst, hothers⟩ := List.forall_mem_cons.mp hclean
  rw [push_eq_pushRows terminal hrows, pushPieces, hrows]
  have hrun := emits_pushUnbroken terminal hfirst
  exact hrun.trans (emits_pushRows hrun.encoding hothers)

/-! ### Runs -/

/-- The text of a terminal writer is made of these pieces. -/
structure Consists (support : Support) (writer : Writer) (pieces : List Piece) : Prop where
  encoding : writer.encoding = .terminal support
  text : writer.text = String.join (pieces.map (Piece.text support))
  sound : ∀ piece ∈ pieces, piece.Sound

/-- An action leaves a text that is made of the pieces noted. -/
theorem Consists.after (consists : Consists support writer pieces) {action : Action}
    (noEscape : ∀ text, action = .push text → '\x1b' ∉ text.toList) :
    Consists support (writer.after action) (writer.pieced pieces action) := by
  cases action with
  | push text =>
    have hemits := emits_push consists.encoding (noEscape text rfl)
    refine ⟨hemits.encoding, ?_, List.forall_mem_append.mpr ⟨consists.sound, hemits.sound⟩⟩
    rw [pieced, List.map_append, String.join_append, ← consists.text]
    exact hemits.text
  | select | release => exact ⟨consists.encoding, consists.text, consists.sound⟩
  | flush =>
    obtain ⟨surface, hflush⟩ := after_flush writer
    rw [hflush]
    exact ⟨consists.encoding, consists.text, consists.sound⟩
  | clear => exact ⟨consists.encoding, rfl, nofun⟩

/-- **The text of a run is made of its pieces.** -/
theorem Consists.run (consists : Consists support writer pieces) {actions : List Action}
    (noEscape : ∀ text, .push text ∈ actions → '\x1b' ∉ text.toList) :
    Consists support (writer.run actions) (writer.piecesFrom pieces actions) := by
  induction actions generalizing writer pieces with
  | nil => exact consists
  | cons action rest ih =>
    have hafter := consists.after fun text haction =>
      noEscape text (haction ▸ List.mem_cons_self ..)
    exact ih hafter fun text htext => noEscape text (List.mem_cons_of_mem action htext)

end Writer

/-! ### Sums of bytes -/

/-- The codes of basic colours are exact sums. -/
theorem toNat_basicCode (entry : Fin 16) :
    (basicCode .foreground entry).toNat =
        (Color.hue entry).toNat + (if Color.isBright entry then 90 else 30) ∧
      (basicCode .background entry).toNat =
        (Color.hue entry).toNat + (if Color.isBright entry then 90 else 30) + 10 := by
  decide +revert

/-- **Directives are understood.** The text that a terminal writer has after any actions, whose texts have no
    escape characters, is made of the pieces written since it was dropped last, and its sequences are those
    of the pieces. Each directive is one for a pen that is pending; it has one parameter or two, with basic
    codes of their sides and nothing that the terminal does not take; it is a reset if and only if the pen
    has no colours, and then it is nothing else. Codes and entries of the palette, whatever the colour, are
    sums that do not go beyond a byte. -/
theorem directives_are_understood :
    (∀ (support : Support) (writer : Writer) (actions : List Writer.Action),
      writer.encoding = .terminal support → writer.text = "" →
      (∀ text, .push text ∈ actions → '\x1b' ∉ text.toList) →
      let pieces := writer.piecesFrom [] actions
      let text := (writer.run actions).text
      text = String.join (pieces.map (Piece.text support)) ∧
        Sgr.sequencesIn text.toList = pieces.filterMap (Piece.params? support) ∧
        ∀ pen, .directive pen ∈ pieces →
          let params := terminalParams support pen
          pen.isPending = true ∧ support.Understands params ∧
            (.reset ∈ params ↔ pen.foreground.color = none ∧ pen.background.color = none) ∧
            (.reset ∈ params → params = [.reset])) ∧
      (∀ entry, (basicCode .foreground entry).toNat =
          (Color.hue entry).toNat + (if Color.isBright entry then 90 else 30) ∧
        (basicCode .background entry).toNat =
          (Color.hue entry).toNat + (if Color.isBright entry then 90 else 30) + 10) ∧
      ∀ rgb : Rgb,
        rgb.nearestGray.toNat = 232 + (closestLevel rampLevels rgb.mean).1.toNat ∧
        rgb.nearestCube.toNat = 16 + 36 * (closestLevel cubeLevels rgb.red.toNat).1.toNat +
          6 * (closestLevel cubeLevels rgb.green.toNat).1.toNat +
          (closestLevel cubeLevels rgb.blue.toNat).1.toNat := by
  refine ⟨fun support writer actions terminal empty noEscape => ?_, toNat_basicCode,
    fun rgb => ⟨rgb.toNat_nearestGray, rgb.toNat_nearestCube⟩⟩
  intro pieces text
  have hnew : Writer.Consists support writer [] := ⟨terminal, empty, nofun⟩
  have consists : Writer.Consists support (writer.run actions) pieces := hnew.run noEscape
  refine ⟨consists.text, ?_, fun pen hpen => ?_⟩
  · rw [show text = _ from consists.text]
    exact Sgr.sequencesIn_pieces consists.sound
  · have hpending : pen.isPending = true := consists.sound _ hpen
    exact ⟨hpending, understands_terminalParams support hpending, terminalParams_reset_iff⟩

/-- Two rows under a background on a terminal of grays, and a third text once both sides are released. -/
theorem directives_of_gray_rows :
    let writer : Writer := { encoding := .terminal .grayscale }
    let actions : List Writer.Action := [.select .foreground (.direct ⟨255, 128, 0⟩),
      .select .background (.indexed 150), .push "a\nb", .release true true, .flush, .push "c"]
    let colors : List Sgr.Param := [.indexed .foreground 243, .indexed .background 246]
    let pen : Pen := ⟨⟨some (.direct ⟨255, 128, 0⟩), true⟩, ⟨some (.indexed 150), true⟩⟩
    writer.encoding = .terminal .grayscale ∧ writer.text = "" ∧
      (∀ text, .push text ∈ actions → '\x1b' ∉ text.toList) ∧
      Sgr.sequencesIn (writer.run actions).text.toList = [colors, [.reset], colors, [.reset]] ∧
      terminalParams .grayscale pen = colors ∧ Support.grayscale.Understands colors := by
  intro writer actions colors pen
  have noEscape : ∀ text, .push text ∈ actions → '\x1b' ∉ text.toList := by
    intro text htext
    obtain rfl | rfl : text = "a\nb" ∨ text = "c" := by simpa [actions] using htext
    all_goals decide
  have hpieces : (writer.piecesFrom [] actions).filterMap (Piece.params? .grayscale) =
      [colors, [.reset], colors, [.reset]] := by decide +kernel
  have hparams : terminalParams .grayscale pen = colors := by decide +kernel
  obtain ⟨-, hsequences, hdirectives⟩ :=
    directives_are_understood.1 .grayscale writer actions rfl rfl noEscape
  obtain ⟨-, hunderstood, -⟩ := hdirectives pen (List.mem_cons_self ..)
  rw [hparams] at hunderstood
  exact ⟨rfl, rfl, noEscape, hsequences.trans hpieces, hparams, hunderstood⟩

end BoxTree
