import BoxTree.Console.Reader
import BoxTree.Console.StyleReader
import BoxTree.Line.Basic
import BoxTree.Output.Encoding
import BoxTree.Output.Surface
import BoxTree.Sgr.Screen
import Mathlib.Data.List.MinMax

namespace BoxTree

/-!
# What is shown of a call

* `Support.shown` — what a terminal shows of a colour: the colour itself where its support has it, else an
  entry of the palette, found by comparing the entries.
* `Encoding.shown`, `Encoding.cell` — what becomes of a colour, and of a character in its colours.
* `Encoding.Accepts` — texts that are shown as they are.
* `Call.cells?` — the characters of a call with their colours, read by itself from the output's own
  colours.
* `Line.cells` — the characters of a line in the colours of its segments.
* `joinRows` — rows with line breaks between them.
* `Sgr.Cell.plainBreak` — a character with its colours, which are dropped at a line break.
-/

open Sgr

/-! ### Colours on a terminal -/

/-- `n` entries of the palette in order. -/
def entriesFrom (start : UInt8) (n : Nat) : List UInt8 :=
  (List.range n).map fun place => start + UInt8.ofNat place

/-- The entries of the cube. -/
def cubeEntries : List UInt8 := entriesFrom cubeStart 216

/-- The entries of the gray ramp. -/
def rampEntries : List UInt8 := entriesFrom rampStart 24

namespace Rgb

/-- The gray whose level is closest to the mean of the channels, rounded down, the first of several. -/
def closestGray? (c : Rgb) : Option UInt8 :=
  rampEntries.argmin fun gray =>
    gap (entryRgb gray).red.toNat ((c.red.toNat + c.green.toNat + c.blue.toNat) / 3)

/-- The closest of the entries of the cube and that gray, the first of several. -/
def closest? (c : Rgb) : Option UInt8 :=
  (cubeEntries ++ c.closestGray?.toList).argmin fun entry => c.distance (entryRgb entry)

end Rgb

/-- What a terminal shows of a colour. A palette has no channels, and gray shades no other entries either;
    the basic colours are left to the terminal. Without a support for colours they come as they are. -/
def Support.shown : Support → Color → Option Color
  | truecolor, color => some color
  | colorless, color => some color
  | palette, .basic entry => some (.basic entry)
  | palette, .indexed entry => some (.indexed entry)
  | palette, .direct c => c.closest?.map .indexed
  | grayscale, .basic entry => some (.basic entry)
  | grayscale, .indexed entry => (entryRgb entry).closestGray?.map .indexed
  | grayscale, .direct c => c.closestGray?.map .indexed

namespace Encoding

/-- The colour that is shown for the one selected. -/
def shown : Encoding → Color → Option Color
  | plain, _ => none
  | terminal support, color => support.shown color
  | scriptConsole, color => some (.direct color.rgb)

/-- A terminal takes an escape character for the start of a sequence, wherever it comes from. -/
def Accepts : Encoding → List Char → Prop
  | terminal _, cs => '\x1b' ∉ cs
  | plain, _ | scriptConsole, _ => True

/-- A character in the colours that are shown for those selected. -/
def cell (encoding : Encoding) (selected : Cell) : Cell where
  char := selected.char
  foreground := selected.foreground.bind encoding.shown
  background := selected.background.bind encoding.shown

end Encoding

/-- A character in the colours of its style. -/
def Console.StyledChar.cell? (styled : StyledChar) : Option Cell :=
  match styled.style with
  | none => some { char := styled.char }
  | some style =>
    (readStyle? style).map fun (foreground, background) => ⟨styled.char, foreground, background⟩

/-- The characters of a call. A console that gets styles must find as many as it has placeholders. -/
def Call.cells? (encoding : Encoding) (call : Call) : Option (List Cell) :=
  match encoding with
  | .plain => some (call.text.toList.map fun c => { char := c })
  | .terminal _ => some (Screen.run {} call.text.toList).cells
  | .scriptConsole =>
    if call.styles.isEmpty then some (call.text.toList.map fun c => { char := c })
    else
      match Console.read? call.text call.styles with
      | some (chars, []) => chars.mapM Console.StyledChar.cell?
      | _ => none

/-! ### Lines -/

/-- The colour that a paint gives the characters. -/
def Paint.color? (theme : Theme) : Paint → Option Color
  | .color chosen => some chosen
  | .ellipsis => some theme.ellipsis
  | .keep | .resetBackground => none

/-- The characters of a segment in its colour. -/
def Segment.cells (theme : Theme) (background : Option Color) (segment : Segment) : List Cell :=
  segment.text.toList.map fun c => ⟨c, segment.paint.color? theme, background⟩

/-- The characters of a line in the colours of its segments. -/
def Line.cells (theme : Theme) (background : Option Color) (line : Line) : List Cell :=
  line.segments.flatMap (Segment.cells theme background)

/-- A line break. -/
def rowBreak : Cell := { char := '\n' }

/-- Rows with line breaks between them. -/
def joinRows (rows : List (List Cell)) : List Cell := List.intercalate [rowBreak] rows

/-- A character with its colours. A line break has none. -/
def Sgr.Cell.plainBreak (cell : Cell) : Cell := if cell.char = '\n' then rowBreak else cell

end BoxTree
