import BoxTree.Color.Basic

namespace BoxTree

/-!
# The palette of 256

Entries 0 to 15 are the basic colours, 16 to 231 a cube of six levels a channel, 232 to 255 a
ramp of 24 grays. The levels are spread evenly over the bytes.

* `evenLevels n` — `n` levels from 0 to 255.
* `closestLevel levels value` — the first of the closest levels, with its place.
* `entryRgb` — the channels of an entry.
* `Rgb.nearestEntry`, `Rgb.nearestGray` — the entry that stands in for given channels.
* `Color.rgb`, `Color.toIndexed`, `Color.toGray` — the same for every encoding.
-/

/-- The basic palette: eight dark colours, then eight bright ones. -/
def basicPalette : List Rgb :=
  [⟨0, 0, 0⟩, ⟨128, 0, 0⟩, ⟨0, 128, 0⟩, ⟨128, 128, 0⟩,
   ⟨0, 0, 128⟩, ⟨128, 0, 128⟩, ⟨0, 128, 128⟩, ⟨192, 192, 192⟩,
   ⟨128, 128, 128⟩, ⟨255, 0, 0⟩, ⟨0, 255, 0⟩, ⟨255, 255, 0⟩,
   ⟨0, 0, 255⟩, ⟨255, 0, 255⟩, ⟨0, 255, 255⟩, ⟨255, 255, 255⟩]

/-! ### Levels -/

/-- `n` levels evenly spread from 0 to 255, rounded to the nearest byte, halves up. -/
def evenLevels (n : Nat) : List UInt8 :=
  (List.range n).map fun i => UInt8.ofNat ((2 * i * 255 + (n - 1)) / (2 * (n - 1)))

/-- The levels of a channel of the cube. -/
def cubeLevels : List UInt8 := evenLevels 6

/-- The levels of the gray ramp. -/
def rampLevels : List UInt8 := evenLevels 24

/-- The distance between two numbers. -/
def gap (a b : Nat) : Nat := (a - b) + (b - a)

/-- The square of that distance. -/
def squaredGap (a b : Nat) : Nat := gap a b * gap a b

/-- Place and level of the table entry closest to `value`, the first of several. The empty table
    answers with zeros. -/
def closestPlace (value : Nat) : List UInt8 → Nat × UInt8
  | [] => (0, 0)
  | [level] => (0, level)
  | level :: rest =>
    let best := closestPlace value rest
    if gap level.toNat value ≤ gap best.2.toNat value then (0, level) else (best.1 + 1, best.2)

/-- Place and level of the table entry closest to `value`, the place as a byte. -/
def closestLevel (levels : List UInt8) (value : Nat) : UInt8 × UInt8 :=
  let best := closestPlace value levels
  (UInt8.ofNat best.1, best.2)

/-! ### Entries -/

/-- The first entry of the cube. -/
def cubeStart : UInt8 := 16

/-- The first entry of the gray ramp. -/
def rampStart : UInt8 := 232

/-- The channels of an entry of the palette of 256. -/
def entryRgb (entry : UInt8) : Rgb :=
  if entry < cubeStart then
    basicPalette.getD entry.toNat ⟨0, 0, 0⟩
  else if rampStart ≤ entry then
    let level := rampLevels.getD (entry.toNat - rampStart.toNat) 0
    ⟨level, level, level⟩
  else
    let offset := entry.toNat - cubeStart.toNat
    ⟨cubeLevels.getD (offset / 36) 0, cubeLevels.getD (offset / 6 % 6) 0,
     cubeLevels.getD (offset % 6) 0⟩

namespace Rgb

/-- The squared distance of two colours in the space of their channels. -/
def distance (a b : Rgb) : Nat :=
  squaredGap a.red.toNat b.red.toNat + squaredGap a.green.toNat b.green.toNat +
    squaredGap a.blue.toNat b.blue.toNat

/-- The mean of the channels, rounded down. -/
def mean (c : Rgb) : Nat := (c.red.toNat + c.green.toNat + c.blue.toNat) / 3

/-- The entry of the gray ramp closest to the mean of the channels. -/
def nearestGray (c : Rgb) : UInt8 := rampStart + (closestLevel rampLevels c.mean).1

/-- The entry of the cube whose channels are the closest levels. -/
def nearestCube (c : Rgb) : UInt8 :=
  cubeStart + 36 * (closestLevel cubeLevels c.red.toNat).1 +
    6 * (closestLevel cubeLevels c.green.toNat).1 + (closestLevel cubeLevels c.blue.toNat).1

/-- The channels of the closest entry of the cube. -/
def cubeRgb (c : Rgb) : Rgb :=
  ⟨(closestLevel cubeLevels c.red.toNat).2, (closestLevel cubeLevels c.green.toNat).2,
   (closestLevel cubeLevels c.blue.toNat).2⟩

/-- The entry of the palette that stands in for `c`: the cube's, unless the ramp's is closer. -/
def nearestEntry (c : Rgb) : UInt8 :=
  if c.distance (entryRgb c.nearestGray) < c.distance c.cubeRgb then c.nearestGray
  else c.nearestCube

end Rgb

/-! ### Every encoding -/

namespace Color

/-- The channels of a colour. -/
def rgb : Color → Rgb
  | basic entry => basicPalette.getD entry.val ⟨0, 0, 0⟩
  | indexed entry => entryRgb entry
  | direct c => c

/-- The entry of the palette of 256 for a colour. -/
def toIndexed : Color → UInt8
  | basic entry => UInt8.ofNat entry.val
  | indexed entry => entry
  | direct c => c.nearestEntry

/-- The entry of the gray ramp for a colour. -/
def toGray (c : Color) : UInt8 := c.rgb.nearestGray

end Color

end BoxTree
