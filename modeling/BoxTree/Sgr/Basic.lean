import BoxTree.Color.Basic

namespace BoxTree.Sgr

/-!
# Select graphic rendition

The escape sequences by which a terminal changes colours.

* `Param` — one change: a colour for a side, a side's default, or both defaults at once.
* `Param.chars` — its numbers, separated by semicolons.
* `sequenceChars` — the parameters of one sequence between its introducer and its final `m`.
-/

/-- One parameter of a sequence. -/
inductive Param where
  /-- Both sides back to their defaults. -/
  | reset
  /-- A basic colour, by its code: 30 to 37 and 90 to 97 for the characters, 40 to 47 and 100 to
      107 behind them. -/
  | basic (side : Side) (code : UInt8)
  /-- An entry of the palette of 256. -/
  | indexed (side : Side) (entry : UInt8)
  /-- A colour by its channels. -/
  | direct (side : Side) (rgb : Rgb)
  /-- One side back to its default. -/
  | default (side : Side)
  deriving DecidableEq

/-- The decimal digits of a byte. -/
def byteChars (n : UInt8) : List Char := Nat.toDigits 10 n.toNat

/-- Pieces joined by semicolons. -/
def joinSemicolons : List (List Char) → List Char
  | [] => []
  | [piece] => piece
  | piece :: rest => piece ++ ';' :: joinSemicolons rest

/-- The number that announces an extended colour of a side. -/
def extendedCode : Side → UInt8
  | .foreground => 38
  | .background => 48

/-- The number that restores the default of a side. -/
def defaultCode : Side → UInt8
  | .foreground => 39
  | .background => 49

namespace Param

/-- The numbers of a parameter. A reset has none. -/
def numbers : Param → List UInt8
  | reset => []
  | basic _ code => [code]
  | indexed side entry => [extendedCode side, 5, entry]
  | direct side rgb => [extendedCode side, 2, rgb.red, rgb.green, rgb.blue]
  | default side => [defaultCode side]

/-- The characters of a parameter. -/
def chars (param : Param) : List Char := joinSemicolons (param.numbers.map byteChars)

/-- The text of a parameter. -/
def text (param : Param) : String := String.ofList param.chars

end Param

/-- The characters of a whole sequence. -/
def sequenceChars (params : List Param) : List Char :=
  '\x1b' :: '[' :: (joinSemicolons (params.map Param.chars) ++ ['m'])

/-- The text of a whole sequence. -/
def sequence (params : List Param) : String := String.ofList (sequenceChars params)

/-- The sequence that restores both sides. -/
def resetSequence : String := sequence [.reset]

end BoxTree.Sgr
