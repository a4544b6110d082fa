import BoxTree.Console.Format
import BoxTree.Sgr.Reader

namespace BoxTree.Console

/-!
# Reading styles

* `readRgb?` — the channels of a value such as `rgb(0,128,255)`.
* `readDeclarations?`, `readStyle?` — the colours that the declarations of a style set.
-/

/-- The channels of a value. -/
def readRgb? : List Char → Option Rgb
  | 'r' :: 'g' :: 'b' :: '(' :: rest =>
    match Text.splitOn ')' rest with
    | [numbers, []] =>
      match (Text.splitOn ',' numbers).map Sgr.readByte? with
      | [some red, some green, some blue] => some ⟨red, green, blue⟩
      | _ => none
    | _ => none
  | _ => none

/-- The side that a property is about. -/
def side? (property : List Char) : Option Side :=
  if property = "color".toList then some .foreground
  else if property = "background".toList then some .background
  else none

/-- The colours of the characters and of what is behind them. A blank declaration sets nothing, and of
    two that set the same side the later one counts. -/
def readDeclarations? : List (List Char) → Option (Option Color × Option Color)
  | [] => some (none, none)
  | [] :: rest => readDeclarations? rest
  | declaration :: rest =>
    match Text.splitOn ':' declaration with
    | [property, value] =>
      match side? property, readRgb? value, readDeclarations? rest with
      | some .foreground, some rgb, some (foreground, background) =>
        some (foreground.or (some (.direct rgb)), background)
      | some .background, some rgb, some (foreground, background) =>
        some (foreground, background.or (some (.direct rgb)))
      | _, _, _ => none
    | _ => none

/-- The colours that a style sets. -/
def readStyle? (style : String) : Option (Option Color × Option Color) :=
  readDeclarations? (Text.splitOn ';' style.toList)

end BoxTree.Console
