import BoxTree.Error

namespace BoxTree

/-!
# Colours

* `Rgb` — three channels.
* `Color` — a colour in one of the encodings an output understands: an entry of the basic
  palette of 16, an entry of the palette of 256, or the channels themselves. Two colours are
  equal when they are written the same way, not when they look alike.
* `Side` — what a colour applies to.
-/

/-- A colour by its channels. -/
structure Rgb where
  red : UInt8
  green : UInt8
  blue : UInt8
  deriving DecidableEq

/-- A colour as it is selected. -/
inductive Color where
  /-- An entry of the palette of 16: eight dark colours, then eight bright ones. -/
  | basic (entry : Fin 16)
  /-- An entry of the palette of 256. -/
  | indexed (entry : UInt8)
  /-- The channels themselves. -/
  | direct (rgb : Rgb)
  deriving DecidableEq

/-- The two things that have a colour: the characters and what is behind them. -/
inductive Side where
  | foreground
  | background
  deriving DecidableEq

namespace Color

/-- The basic colour of an index, which must be below 16. -/
def ofBasicIndex (index : UInt8) : Except Error Color :=
  if h : index.toNat < 16 then .ok (basic ⟨index.toNat, h⟩) else .error (.basicIndex index)

/-- Which of the eight hues a basic entry is. -/
def hue (entry : Fin 16) : UInt8 := UInt8.ofNat (entry.val % 8)

/-- The second half of the basic palette is the bright one. -/
def isBright (entry : Fin 16) : Bool := 8 ≤ entry.val

end Color

end BoxTree
