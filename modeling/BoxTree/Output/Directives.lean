import BoxTree.Output.Shown
import BoxTree.Sgr.Reader

namespace BoxTree

/-!
# Directives

How many changes of colour a call writes, and how many a list of colours needs.

* `Sgr.sequencesIn` — the sequences in a text.
* `Call.directives?` — how many directives a call has.
* `changesAfter`, `changes` — how often a colour differs from the one before it.
* `Line.colors` — the colours of the segments of a line.
-/

/-- The sequences in a text, by their parameters. -/
def Sgr.sequencesIn : List Char → List (List Param)
  | [] => []
  | c :: cs =>
    match readSequence? (c :: cs) with
    | some (params, _) => params :: sequencesIn cs
    | none => sequencesIn cs

/-- How many directives a call has. On a terminal these are the sequences before the final reset, which
    must be there; on a script console they are the placeholders, by their styles. -/
def Call.directives? (encoding : Encoding) (call : Call) : Option Nat :=
  match encoding with
  | .plain => some 0
  | .terminal _ =>
    let sequences := Sgr.sequencesIn call.text.toList
    if sequences.getLast? = some [.reset] then some sequences.dropLast.length else none
  | .scriptConsole => some call.styles.length

/-- How many colours differ from the one before them, where the first one comes behind `previous`. -/
def changesAfter (previous : Option Color) : List Color → Nat
  | [] => 0
  | color :: colors =>
    (if previous = some color then 0 else 1) + changesAfter (some color) colors

/-- How many colours differ from the one before them. The first one has none before it and counts. -/
def changes (colors : List Color) : Nat := changesAfter none colors

/-- The colours of the segments of a line, those that have one. -/
def Line.colors (theme : Theme) (line : Line) : List Color :=
  line.segments.filterMap (·.paint.color? theme)

end BoxTree
