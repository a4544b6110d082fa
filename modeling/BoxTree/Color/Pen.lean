import BoxTree.Color.Basic

namespace BoxTree

/-!
# The pen

The colours that a writer has selected, and which of them its output does not show yet.

* `Ink` — one side: the colour, `none` for the output's own, and whether it is still pending.
* `Pen` — both sides.
* `Ink.select`, `Ink.release` — the two changes of one side.
* `Pen.settle`, `Pen.unsettle` — nothing, or everything, is pending.
-/

/-- One side of the pen. -/
structure Ink where
  /-- The colour selected, `none` for the output's own. -/
  color : Option Color := none
  /-- The output does not show the colour yet. -/
  pending : Bool := false
  deriving DecidableEq

namespace Ink

/-- Selects a colour; selecting the present one again changes nothing. -/
def select (ink : Ink) (color : Color) : Ink :=
  if ink.color = some color then ink else ⟨some color, true⟩

/-- Goes back to the output's own colour. A side that never had a colour, or whose colour the
    output does not show yet, is left as it is. -/
def release (ink : Ink) : Ink :=
  if ink.color.isSome = ink.pending then ink else ⟨none, true⟩

/-- The output shows the colour now. -/
def settle (ink : Ink) : Ink := { ink with pending := false }

/-- The output may show anything. -/
def unsettle (ink : Ink) : Ink := { ink with pending := true }

end Ink

/-- Both sides of the pen. -/
structure Pen where
  foreground : Ink := {}
  background : Ink := {}
  deriving DecidableEq

namespace Pen

/-- The ink of a side. -/
def ink (pen : Pen) : Side → Ink
  | .foreground => pen.foreground
  | .background => pen.background

/-- Selects a colour for a side. -/
def select (pen : Pen) (color : Color) : Side → Pen
  | .foreground => { pen with foreground := pen.foreground.select color }
  | .background => { pen with background := pen.background.select color }

/-- Releases the sides asked for. -/
def release (pen : Pen) (foreground background : Bool) : Pen where
  foreground := if foreground then pen.foreground.release else pen.foreground
  background := if background then pen.background.release else pen.background

/-- Some side is pending. -/
def isPending (pen : Pen) : Bool := pen.foreground.pending || pen.background.pending

/-- The output shows both sides. -/
def settle (pen : Pen) : Pen := ⟨pen.foreground.settle, pen.background.settle⟩

/-- The output has to be told both sides again. -/
def unsettle (pen : Pen) : Pen := ⟨pen.foreground.unsettle, pen.background.unsettle⟩

@[simp] theorem isPending_settle (pen : Pen) : pen.settle.isPending = false := rfl

end Pen

end BoxTree
