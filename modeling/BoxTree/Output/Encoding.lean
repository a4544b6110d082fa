import BoxTree.Color.Pen
import BoxTree.Color.Support
import BoxTree.Sgr.Basic

namespace BoxTree

/-!
# Encodings

* `Encoding` — how a writer writes that a colour changes.
* `terminalParams` — the parameters that bring a terminal up to date with a pen.
-/

/-- How a writer writes that a colour changes. -/
inductive Encoding where
  /-- Not at all. -/
  | plain
  /-- With escape sequences that a terminal of this support understands. -/
  | terminal (support : Support)
  /-- With placeholders, the styles kept in a list. -/
  | scriptConsole
  deriving DecidableEq

/-! ### Terminals -/

/-- The code of a basic colour on a side. -/
def basicCode (side : Side) (entry : Fin 16) : UInt8 :=
  Color.hue entry + (if Color.isBright entry then 90 else 30) +
    (match side with
      | .foreground => 0
      | .background => 10)

/-- The parameter that gives a side a colour. -/
def colorParam (side : Side) : Color → Sgr.Param
  | .basic entry => .basic side (basicCode side entry)
  | .indexed entry => .indexed side entry
  | .direct rgb => .direct side rgb

/-- The parameter of a pending side that has a colour. -/
def selectedParam (support : Support) (side : Side) (ink : Ink) : List Sgr.Param :=
  match ink.color with
  | some color => if ink.pending then [colorParam side (support.fit color)] else []
  | none => []

/-- The parameter of a pending side that has no colour. -/
def releasedParam (side : Side) (ink : Ink) : List Sgr.Param :=
  match ink.color with
  | some _ => []
  | none => if ink.pending then [.default side] else []

/-- The parameters that bring a terminal up to date with a pen: colours first, then defaults. When
    neither side has a colour, one reset does for both. -/
def terminalParams (support : Support) (pen : Pen) : List Sgr.Param :=
  selectedParam support .foreground pen.foreground ++
  selectedParam support .background pen.background ++
  if pen.foreground.color.isNone && pen.background.color.isNone then [.reset]
  else
    releasedParam .foreground pen.foreground ++ releasedParam .background pen.background

end BoxTree
