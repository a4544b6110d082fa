import BoxTree.Color.Basic

namespace BoxTree

/-!
# Named colours

The 16 basic colours by name, each in two forms.

* `ColorName.standard` — the entry of the basic palette, drawn as the terminal likes.
* `ColorName.vivid` — fixed channels that read well on a script console.
-/

/-- The names of the basic colours in palette order. -/
inductive ColorName where
  | black | darkRed | darkGreen | darkYellow | darkBlue | darkMagenta | darkCyan | lightGray
  | darkGray | red | green | yellow | blue | magenta | brightCyan | white
  deriving DecidableEq

namespace ColorName

/-- The place of a name in the basic palette. -/
def entry : ColorName → Fin 16
  | black => 0
  | darkRed => 1
  | darkGreen => 2
  | darkYellow => 3
  | darkBlue => 4
  | darkMagenta => 5
  | darkCyan => 6
  | lightGray => 7
  | darkGray => 8
  | red => 9
  | green => 10
  | yellow => 11
  | blue => 12
  | magenta => 13
  | brightCyan => 14
  | white => 15

/-- The entry of the basic palette. -/
def standard (name : ColorName) : Color := .basic name.entry

/-- The channels a script console shows. -/
def vividRgb : ColorName → Rgb
  | black => ⟨0, 0, 0⟩
  | darkRed => ⟨205, 49, 49⟩
  | darkGreen => ⟨13, 188, 121⟩
  | darkYellow => ⟨229, 229, 16⟩
  | darkBlue => ⟨36, 114, 200⟩
  | darkMagenta => ⟨188, 63, 188⟩
  | darkCyan => ⟨17, 168, 205⟩
  | lightGray => ⟨229, 229, 229⟩
  | darkGray => ⟨102, 102, 102⟩
  | red => ⟨241, 76, 76⟩
  | green => ⟨35, 209, 139⟩
  | yellow => ⟨245, 245, 67⟩
  | blue => ⟨59, 142, 234⟩
  | magenta => ⟨214, 112, 214⟩
  | brightCyan => ⟨41, 184, 219⟩
  | white => ⟨229, 229, 229⟩

/-- The colour for a script console. -/
def vivid (name : ColorName) : Color := .direct name.vividRgb

end ColorName

end BoxTree
