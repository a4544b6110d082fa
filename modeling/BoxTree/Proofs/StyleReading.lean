import BoxTree.Console.StyleReader
import BoxTree.Proofs.SgrReading

namespace BoxTree.Console

/-!
# Styles are read back

* `valueChars`, `declarationChars` — the characters of a value and of a declaration.
* `readRgb?_valueChars`, `readDeclarations?_cons` — both are read back.
* `readStyle?_style` — the style of a pen sets the colours of the pen, as channels.
-/

open Sgr

variable {c : Char} {rgb : Rgb} {property : List Char}

/-- The characters of a value. -/
def valueChars (rgb : Rgb) : List Char :=
  'r' :: 'g' :: 'b' :: '(' ::
    (byteChars rgb.red ++ ',' :: (byteChars rgb.green ++ ',' :: (byteChars rgb.blue ++ [')'])))

/-- The characters of a declaration. -/
def declarationChars (property : List Char) (rgb : Rgb) : List Char := property ++ ':' :: valueChars rgb

/-- The characters of a declaration, spelled out. -/
theorem toList_declaration (property : String) (color : Color) :
    (declaration property color).toList = declarationChars property.toList color.rgb := by
  have hdigits : ∀ n : UInt8, (toString n.toNat).toList = byteChars n := by
    intro n
    rw [Nat.toString_eq_repr, Nat.repr, String.toList_ofList, byteChars]
  simp only [declaration, String.toList_append, hdigits, List.append_assoc]
  rfl

/-- A character that is no digit stands in no number. -/
theorem not_mem_byteChars (h : c.isDigit = false) (n : UInt8) : c ∉ byteChars n := by
  intro hmem
  rw [isDigit_of_mem_byteChars hmem] at h
  cases h

/-- What stands in a value is a digit or one of these. -/
theorem not_mem_valueChars (hdigit : c.isDigit = false)
    (hother : c ∉ ['r', 'g', 'b', '(', ',', ')']) (rgb : Rgb) : c ∉ valueChars rgb := by
  have hnumber := not_mem_byteChars hdigit
  simp only [List.mem_cons, List.not_mem_nil, or_false, not_or] at hother
  simp [valueChars, hnumber, hother]

/-- **A value is read back** as the channels that it was written for. -/
theorem readRgb?_valueChars (rgb : Rgb) : readRgb? (valueChars rgb) = some rgb := by
  have hnumber : ∀ c : Char, c.isDigit = false → ∀ n, c ∉ byteChars n := fun c h n =>
    not_mem_byteChars h n
  have hsplit : Text.splitOn ')'
      (byteChars rgb.red ++ ',' :: (byteChars rgb.green ++ ',' :: (byteChars rgb.blue ++ [')']))) =
      [byteChars rgb.red ++ ',' :: (byteChars rgb.green ++ ',' :: byteChars rgb.blue), []] := by
    have hnone : ')' ∉ byteChars rgb.red ++ ',' :: (byteChars rgb.green ++ ',' :: byteChars rgb.blue) := by
      simp [hnumber ')' rfl]
    have h := Text.splitOn_append_cons hnone []
    simpa [Text.splitOn] using h
  have hnumbers : Text.splitOn ','
      (byteChars rgb.red ++ ',' :: (byteChars rgb.green ++ ',' :: byteChars rgb.blue)) =
      [byteChars rgb.red, byteChars rgb.green, byteChars rgb.blue] := by
    rw [Text.splitOn_append_cons (hnumber ',' rfl _), Text.splitOn_append_cons (hnumber ',' rfl _),
      Text.splitOn_of_not_mem (hnumber ',' rfl _)]
  simp only [valueChars, readRgb?, hsplit, hnumbers, List.map_cons, List.map_nil, readByte?_byteChars]

/-- A declaration sets one side, unless a later one does. -/
theorem readDeclarations?_cons {side : Side} (hside : side? property = some side) (hcolon : ':' ∉ property)
    (rgb : Rgb) (rest : List (List Char)) :
    readDeclarations? (declarationChars property rgb :: rest) =
      (readDeclarations? rest).map fun colors =>
        match side with
        | .foreground => (colors.1.or (some (.direct rgb)), colors.2)
        | .background => (colors.1, colors.2.or (some (.direct rgb))) := by
  have hsplit : Text.splitOn ':' (declarationChars property rgb) = [property, valueChars rgb] := by
    rw [declarationChars, Text.splitOn_append_cons hcolon,
      Text.splitOn_of_not_mem (not_mem_valueChars rfl (by decide) rgb)]
  have hne : declarationChars property rgb ≠ [] := by simp [declarationChars]
  rw [readDeclarations?.eq_3 _ _ hne]
  simp only [hsplit, hside, readRgb?_valueChars]
  cases side <;> cases readDeclarations? rest <;> rfl

/-- **The style of a pen sets the colours of the pen**, as channels. -/
theorem readStyle?_style (pen : Pen) :
    readStyle? (style pen) =
      some (pen.foreground.color.map fun color => .direct color.rgb,
        pen.background.color.map fun color => .direct color.rgb) := by
  have hforeground : side? "color".toList = some .foreground := rfl
  have hbackground : side? "background".toList = some .background := rfl
  have hsemicolon : ∀ rgb, ';' ∉ declarationChars "color".toList rgb ∧
      ';' ∉ declarationChars "background".toList rgb := by
    intro rgb
    have hvalue := not_mem_valueChars (c := ';') rfl (by decide) rgb
    simp [declarationChars, hvalue]
  obtain ⟨⟨foreground, -⟩, ⟨background, -⟩⟩ := pen
  unfold readStyle? style
  cases foreground with
  | none =>
    cases background with
    | none => rfl
    | some behind =>
      show readDeclarations? (Text.splitOn ';' (declaration "background" behind).toList) = _
      rw [toList_declaration, Text.splitOn_of_not_mem (hsemicolon _).2,
        readDeclarations?_cons hbackground (by decide)]
      rfl
  | some color =>
    cases background with
    | none =>
      show readDeclarations? (Text.splitOn ';' (declaration "color" color).toList) = _
      rw [toList_declaration, Text.splitOn_of_not_mem (hsemicolon _).1,
        readDeclarations?_cons hforeground (by decide)]
      rfl
    | some behind =>
      show readDeclarations? (Text.splitOn ';'
        (declaration "color" color ++ ";" ++ declaration "background" behind).toList) = _
      rw [String.toList_append, String.toList_append, toList_declaration, toList_declaration,
        List.append_assoc]
      show readDeclarations? (Text.splitOn ';'
        (declarationChars "color".toList color.rgb ++ ';' ::
          declarationChars "background".toList behind.rgb)) = _
      rw [Text.splitOn_append_cons (hsemicolon _).1, Text.splitOn_of_not_mem (hsemicolon _).2,
        readDeclarations?_cons hforeground (by decide), readDeclarations?_cons hbackground (by decide)]
      rfl

end BoxTree.Console
