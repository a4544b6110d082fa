import BoxTree.Color.Palette

namespace BoxTree

/-!
# What colours a terminal shows

* `Support` — the four kinds of terminals.
* `Support.code`, `Support.ofCode?` — the small number that stands for a kind.
* `Support.fit` — the colour that a terminal shows in place of the one selected.
-/

/-- The colours that a terminal understands. -/
inductive Support where
  /-- Every colour. -/
  | truecolor
  /-- The palette of 256. -/
  | palette
  /-- The gray ramp of the palette. -/
  | grayscale
  /-- None. -/
  | colorless
  deriving DecidableEq

namespace Support

/-- The number of a kind of terminal. -/
def code : Support → Int
  | palette => 1
  | truecolor => 2
  | colorless => 3
  | grayscale => 4

/-- The kind of terminal that a number stands for. -/
def ofCode? (code : Int) : Option Support :=
  if code = 1 then some palette
  else if code = 2 then some truecolor
  else if code = 3 then some colorless
  else if code = 4 then some grayscale
  else none

/-- A kind of terminal is found again by its number. -/
theorem ofCode?_code (support : Support) : ofCode? support.code = some support := by
  cases support <;> rfl

/-- The colour shown in place of the one selected. A palette takes over for channels, the gray
    ramp for channels and palette entries; basic colours are understood everywhere. -/
def fit : Support → Color → Color
  | palette, .direct rgb => .indexed rgb.nearestEntry
  | grayscale, .direct rgb => .indexed rgb.nearestGray
  | grayscale, .indexed entry => .indexed (Color.indexed entry).toGray
  | _, color => color

end Support

end BoxTree
