import BoxTree.Theme

namespace BoxTree

/-!
# Lines of coloured segments

* `Paint` — what happens to the colours before a segment is written.
* `Segment`, `Line` — a text with its paint; the segments of one row.
* `Line.plain` — the text of a row.
* `ellipsisText`, `quotesText`, `rowEndText`, `indent` — texts that are the same in
  every tree.
-/

/-- What happens to the colours before a segment is written. -/
inductive Paint where
  /-- Nothing. -/
  | keep
  /-- The characters take this colour. -/
  | color (color : Color)
  /-- The characters take the theme's colour for what is left out. -/
  | ellipsis
  /-- What is behind the characters goes back to the output's own colour. -/
  | resetBackground
  deriving DecidableEq

/-- A text with its paint. -/
structure Segment where
  text : String
  paint : Paint
  deriving DecidableEq

/-- One row of a rendered tree. -/
structure Line where
  segments : List Segment := []
  deriving DecidableEq

/-- A text in a colour. -/
def Segment.colored (text : String) (color : Color) : Segment := ⟨text, .color color⟩

namespace Line

/-- The text of a row, without colours. -/
def plain (line : Line) : String := String.join (line.segments.map Segment.text)

/-- How many segments there are. -/
def length (line : Line) : Nat := line.segments.length

/-- Whether there are none. -/
def isEmpty (line : Line) : Bool := line.segments.isEmpty

end Line

/-! ### Fixed texts -/

/-- Stands for the children of a collapsed node. -/
def ellipsisText : String := "…"

/-- Stands around a text of several rows. -/
def quotesText : String := "'''"

/-- Marks the end of a row that is not the last. -/
def rowEndText : String := "⮐"

/-- Stands before each row of a text of several rows. -/
def indent : String := "  "

end BoxTree
