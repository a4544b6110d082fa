import BoxTree.Color.Palette
import BoxTree.Color.Pen

namespace BoxTree.Console

/-!
# Console format strings

A script console takes a text and a list of styles. When there are styles, the text is a format
string: each `%c` takes the next style, and `%%` stands for one percent sign.

* `quote`, `unquote` — write a text so that it holds no placeholder, and take that back.
* `shown` — what a console without styles would show of a format string.
* `style` — the declarations for the colours of a pen.
-/

/-- The placeholder that takes the next style. -/
def placeholder : String := "%c"

/-- Every percent sign twice. -/
def quoteChars : List Char → List Char
  | [] => []
  | c :: cs => if c = '%' then '%' :: '%' :: quoteChars cs else c :: quoteChars cs

/-- Two percent signs in a row become one, from the left. -/
def unquoteChars : List Char → List Char
  | '%' :: '%' :: cs => '%' :: unquoteChars cs
  | c :: cs => c :: unquoteChars cs
  | [] => []

/-- Placeholders dropped, two percent signs read as one, a lone one kept. -/
def shownChars : List Char → List Char
  | '%' :: 'c' :: cs => shownChars cs
  | '%' :: '%' :: cs => '%' :: shownChars cs
  | c :: cs => c :: shownChars cs
  | [] => []

/-- The text written so that it holds no placeholder. -/
def quote (text : String) : String := String.ofList (quoteChars text.toList)

/-- The text of which `quote` made this one. -/
def unquote (text : String) : String := String.ofList (unquoteChars text.toList)

/-- The text that a format string shows. -/
def shown (format : String) : String := String.ofList (shownChars format.toList)

/-! ### Styles -/

/-- A property set to a colour. -/
def declaration (property : String) (color : Color) : String :=
  property ++ ":rgb(" ++ toString color.rgb.red.toNat ++ "," ++
    toString color.rgb.green.toNat ++ "," ++ toString color.rgb.blue.toNat ++ ")"

/-- The declarations for both colours of a pen; a side without a colour has none. -/
def style (pen : Pen) : String :=
  String.intercalate ";"
    ((pen.foreground.color.map (declaration "color")).toList ++
      (pen.background.color.map (declaration "background")).toList)

/-! ### Quoting is undone -/

theorem unquoteChars_quoteChars (cs : List Char) : unquoteChars (quoteChars cs) = cs := by
  induction cs with
  | nil => rfl
  | cons c cs ih =>
    by_cases h : c = '%'
    · simp [quoteChars, h, unquoteChars, ih]
    · rw [quoteChars, if_neg h, unquoteChars.eq_2 _ _ (by simp [h]), ih]

end BoxTree.Console
