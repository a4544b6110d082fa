import BoxTree.Sgr.Basic
import BoxTree.Text.Rows

namespace BoxTree.Sgr

/-!
# Reading sequences

* `readByte?` — a byte from its decimal digits.
* `paramsOf?` — the parameters that a list of numbers spells, where an empty number is a reset.
* `readSequence?` — the parameters of the sequence at the start of a text, and what follows it.
-/

/-- The number that decimal digits add to a number read before. -/
def readDigits? : Nat → List Char → Option Nat
  | value, [] => some value
  | value, c :: cs =>
    if c.isDigit then readDigits? (10 * value + (c.toNat - '0'.toNat)) cs else none

/-- A byte from its decimal digits; without digits there is no byte. -/
def readByte? : List Char → Option UInt8
  | [] => none
  | digits =>
    match readDigits? 0 digits with
    | some value => if value < 256 then some (UInt8.ofNat value) else none
    | none => none

/-- The side that a basic code belongs to. -/
def basicSide? (code : UInt8) : Option Side :=
  if 30 ≤ code ∧ code ≤ 37 ∨ 90 ≤ code ∧ code ≤ 97 then some .foreground
  else if 40 ≤ code ∧ code ≤ 47 ∨ 100 ≤ code ∧ code ≤ 107 then some .background
  else none

/-- The parameter of a number that stands alone. -/
def singleParam? (code : UInt8) : Option Param :=
  if code = 0 then some .reset
  else if code = defaultCode .foreground then some (.default .foreground)
  else if code = defaultCode .background then some (.default .background)
  else (basicSide? code).map fun side => .basic side code

/-- The side whose extended colour a number announces. -/
def extendedSide? (code : UInt8) : Option Side :=
  if code = extendedCode .foreground then some .foreground
  else if code = extendedCode .background then some .background
  else none

/-- The parameters that numbers spell. An empty number is a reset; the number of an extended colour
    takes the numbers behind it. -/
def paramsOf? : List (Option UInt8) → Option (List Param)
  | [] => some []
  | none :: rest => (paramsOf? rest).map (.reset :: ·)
  | some code :: rest =>
    match extendedSide? code, rest with
    | some side, some kind :: some a :: rest =>
      if kind = 5 then (paramsOf? rest).map (.indexed side a :: ·)
      else
        match rest with
        | some b :: some c :: rest =>
          if kind = 2 then (paramsOf? rest).map (.direct side ⟨a, b, c⟩ :: ·) else none
        | _ => none
    | some _, _ => none
    | none, rest =>
      match singleParam? code, paramsOf? rest with
      | some param, some params => some (param :: params)
      | _, _ => none

/-- The parameters that the characters between introducer and final `m` spell. -/
def readParams? (body : List Char) : Option (List Param) :=
  paramsOf? ((Text.splitOn ';' body).map readByte?)

/-- A character of the parameters of a sequence. -/
def isParamChar (c : Char) : Bool := c.isDigit || c = ';'

/-- The parameters of the sequence at the start of a text, and what follows it. -/
def readSequence? : List Char → Option (List Param × List Char)
  | '\x1b' :: '[' :: cs =>
    match cs.dropWhile isParamChar with
    | 'm' :: rest => (readParams? (cs.takeWhile isParamChar)).map (·, rest)
    | _ => none
  | _ => none

end BoxTree.Sgr
