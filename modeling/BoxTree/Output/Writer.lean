import BoxTree.Line.Basic
import BoxTree.Output.Encoding
import BoxTree.Output.Surface
import BoxTree.Text.Rows

namespace BoxTree

/-!
# Writers

A writer collects text until it is flushed. Colours are selected on its pen; a directive is written
only before the next text, and only if the pen has changed.

* `Writer.push` — more text.
* `Writer.select`, `Writer.release` — changes of colour.
* `Writer.flush`, `Writer.clear` — hand the text to the surface; start afresh.
* `Writer.pushLine` — one line of a rendered tree.
* `Writer.Action`, `Writer.perform` — the above as data.
-/

/-- Text in the making, and where it goes. -/
structure Writer where
  encoding : Encoding
  pen : Pen := {}
  text : String := ""
  /-- The styles of the placeholders in the text. -/
  styles : List String := []
  surface : Surface := .standardOutput
  deriving DecidableEq

namespace Writer

/-! ### Text -/

/-- Writes what the pen selects. -/
def direct (writer : Writer) : Writer :=
  match writer.encoding with
  | .plain => writer
  | .terminal support =>
    { writer with text := writer.text ++ Sgr.sequence (terminalParams support writer.pen) }
  | .scriptConsole =>
    { writer with
      text := writer.text ++ Console.placeholder
      styles := writer.styles ++ [Console.style writer.pen] }

/-- The text as the encoding writes it. -/
def spelled (encoding : Encoding) (text : String) : String :=
  match encoding with
  | .scriptConsole => Console.quote text
  | .plain | .terminal _ => text

/-- Writes a text under the colours of the pen. -/
def pushUnbroken (writer : Writer) (run : String) : Writer :=
  let directed := if writer.pen.isPending then writer.direct else writer
  { directed with
    text := directed.text ++ spelled writer.encoding run
    pen := writer.pen.settle }

/-- Goes to the next row of a terminal. A terminal would carry a background on, so it is closed
    before the row ends and both sides are written again after it. -/
def breakRow (writer : Writer) : Writer :=
  if writer.pen.background.color.isSome then
    { writer with text := writer.text ++ Sgr.resetSequence ++ "\n", pen := writer.pen.unsettle }
  else
    { writer with text := writer.text ++ "\n" }

/-- The rows after the first one. -/
def pushRows (writer : Writer) (rows : List String) : Writer :=
  rows.foldl (fun writer row => writer.breakRow.pushUnbroken row) writer

/-- Writes a text. -/
def push (writer : Writer) (text : String) : Writer :=
  match writer.encoding with
  | .terminal _ =>
    match Text.rows text with
    | [] => writer
    | row :: rows => (writer.pushUnbroken row).pushRows rows
  | .plain | .scriptConsole => writer.pushUnbroken text

/-! ### Colours -/

/-- Selects a colour for a side. -/
def select (writer : Writer) (side : Side) (color : Color) : Writer :=
  { writer with pen := writer.pen.select color side }

/-- Releases the sides asked for. -/
def release (writer : Writer) (foreground background : Bool) : Writer :=
  { writer with pen := writer.pen.release foreground background }

/-! ### The surface -/

/-- The call by which the text is handed over. A terminal is left on its own colours. -/
def call (writer : Writer) : Call :=
  match writer.encoding with
  | .plain => { text := writer.text }
  | .terminal _ => { text := writer.text ++ Sgr.resetSequence }
  | .scriptConsole =>
    if writer.styles.isEmpty then { text := Console.unquote writer.text }
    else { text := writer.text, styles := writer.styles }

/-- Hands the text over. The text stays. -/
def flush (writer : Writer) : Except Error Writer :=
  match writer.surface.log writer.call with
  | .ok surface => .ok { writer with surface }
  | .error error => .error error

/-- Drops the text. What follows starts with both sides of the pen. -/
def clear (writer : Writer) : Writer :=
  { writer with text := "", styles := [], pen := writer.pen.unsettle }

/-! ### Lines -/

/-- Applies the paint of a segment. -/
def paint (theme : Theme) (writer : Writer) : Paint → Writer
  | .keep => writer
  | .color color => writer.select .foreground color
  | .ellipsis => writer.select .foreground theme.ellipsis
  | .resetBackground => writer.release false true

/-- Writes one segment. -/
def pushSegment (theme : Theme) (writer : Writer) (segment : Segment) : Writer :=
  (writer.paint theme segment.paint).push segment.text

/-- Writes the segments of a line. -/
def pushLine (theme : Theme) (writer : Writer) (line : Line) : Writer :=
  line.segments.foldl (pushSegment theme) writer

/-! ### Actions -/

/-- What can be done with a writer. -/
inductive Action where
  | push (text : String)
  | select (side : Side) (color : Color)
  | release (foreground background : Bool)
  | flush
  | clear
  deriving DecidableEq

/-- One action. Only a flush can fail. -/
def perform (writer : Writer) : Action → Except Error Writer
  | .push text => .ok (writer.push text)
  | .select side color => .ok (writer.select side color)
  | .release foreground background => .ok (writer.release foreground background)
  | .flush => writer.flush
  | .clear => .ok writer.clear

/-- One action after another. An action that fails leaves the writer as it was. -/
def run (writer : Writer) (actions : List Action) : Writer :=
  actions.foldl (fun writer action => (writer.perform action).toOption.getD writer) writer

end Writer

end BoxTree
