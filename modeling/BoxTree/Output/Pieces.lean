import BoxTree.Output.Writer
import BoxTree.Sgr.Range

namespace BoxTree

/-!
# What a terminal is sent

* `Support.Takes`, `Support.Understands` — the parameters that a terminal understands, and the directives.
* `Piece` — a row, a directive, or what stands between two rows.
* `Writer.pushPieces` — the pieces that a text is written in.
* `Writer.piecesFrom` — the pieces written in a run since the text was dropped last.
-/

/-- A palette has no colours by their channels; grays only have the entries of the ramp. -/
def Support.Takes : Support → Sgr.Param → Prop
  | palette, .direct .. | grayscale, .direct .. => False
  | grayscale, .indexed _ entry => 232 ≤ entry ∧ entry ≤ 255
  | _, _ => True

/-- A directive that a terminal understands. -/
structure Support.Understands (support : Support) (params : List Sgr.Param) : Prop where
  length : params.length = 1 ∨ params.length = 2
  inRange : ∀ param ∈ params, param.InRange
  takes : ∀ param ∈ params, support.Takes param

/-- A piece of the text that a terminal is sent. -/
inductive Piece where
  /-- Characters of a row. -/
  | run (text : String)
  /-- What brings the terminal up to date with a pen. -/
  | directive (pen : Pen)
  /-- What closes a background before a row ends. -/
  | closing
  /-- The end of a row. -/
  | rowEnd

namespace Piece

variable (support : Support)

/-- The text of a piece. -/
def text : Piece → String
  | run text => text
  | directive pen => Sgr.sequence (terminalParams support pen)
  | closing => Sgr.resetSequence
  | rowEnd => "\n"

/-- The parameters of a piece that is a sequence. -/
def params? : Piece → Option (List Sgr.Param)
  | directive pen => some (terminalParams support pen)
  | closing => some [.reset]
  | run _ | rowEnd => none

end Piece

namespace Writer

/-! ### Pieces of a text -/

/-- A row has a directive before it if some side of the pen is pending. -/
def runPieces (writer : Writer) (run : String) : List Piece :=
  (if writer.pen.isPending then [.directive writer.pen] else []) ++ [.run run]

/-- A row is ended once its background is closed. -/
def breakPieces (writer : Writer) : List Piece :=
  (if writer.pen.background.color.isSome then [.closing] else []) ++ [.rowEnd]

/-- The rows after the first one. -/
def rowsPieces : Writer → List String → List Piece
  | _, [] => []
  | writer, row :: rest =>
    writer.breakPieces ++ writer.breakRow.runPieces row ++
      rowsPieces (writer.breakRow.pushUnbroken row) rest

/-- The pieces that a text is written in. -/
def pushPieces (writer : Writer) (text : String) : List Piece :=
  match Text.rows text with
  | [] => []
  | row :: rest => writer.runPieces row ++ (writer.pushUnbroken row).rowsPieces rest

/-! ### Pieces of a run -/

/-- The pieces written since the text was dropped last, after one more action. -/
def pieced (writer : Writer) (pieces : List Piece) : Action → List Piece
  | .push text => pieces ++ writer.pushPieces text
  | .clear => []
  | .select _ _ | .release _ _ | .flush => pieces

/-- The pieces written since the text was dropped last. -/
def piecesFrom (writer : Writer) (pieces : List Piece) : List Action → List Piece
  | [] => pieces
  | action :: rest => piecesFrom (writer.run [action]) (writer.pieced pieces action) rest

end Writer

end BoxTree
