import BoxTree.Console.Format

namespace BoxTree.Console

/-!
# What a console shows

* `read?` — a format string read from the left: each character with the style it is shown in, and
  the styles that no placeholder took.
-/

/-- A character with the style it is shown in, `none` before the first placeholder. -/
structure StyledChar where
  char : Char
  style : Option String
  deriving DecidableEq

/-- Reads a format string in the present style. A placeholder takes the next style, of which there
    must be one. -/
def readFrom? (style : Option String) (styles : List String) :
    List Char → Option (List StyledChar × List String)
  | '%' :: 'c' :: cs =>
    match styles with
    | next :: rest => readFrom? (some next) rest cs
    | [] => none
  | '%' :: '%' :: cs =>
    (readFrom? style styles cs).map fun (chars, rest) => (⟨'%', style⟩ :: chars, rest)
  | c :: cs => (readFrom? style styles cs).map fun (chars, rest) => (⟨c, style⟩ :: chars, rest)
  | [] => some ([], styles)

/-- Reads a format string from the left. -/
def read? (format : String) (styles : List String) : Option (List StyledChar × List String) :=
  readFrom? none styles format.toList

end BoxTree.Console
