import BoxTree.Error

namespace BoxTree.Text

/-!
# Slices by bytes

Positions in a text count the bytes of its UTF-8 form.

* `dropBytes?`, `takeBytes?` — what follows, or comes before, a position that falls between two
  characters.
* `slice?` — the text between two such positions.
* `slice` — the same, with the error that reports a position which does not.
-/

/-- The characters after the first `n` bytes, if those end between two characters. -/
def dropBytes? : Nat → List Char → Option (List Char)
  | 0, cs => some cs
  | _ + 1, [] => none
  | n + 1, c :: cs =>
    if c.utf8Size ≤ n + 1 then dropBytes? (n + 1 - c.utf8Size) cs else none

/-- The characters of the first `n` bytes, if those end between two characters. -/
def takeBytes? : Nat → List Char → Option (List Char)
  | 0, _ => some []
  | _ + 1, [] => none
  | n + 1, c :: cs =>
    if c.utf8Size ≤ n + 1 then (takeBytes? (n + 1 - c.utf8Size) cs).map (c :: ·) else none

/-- The text from byte `start` up to byte `stop`, if both fall between characters and `start` is
    not behind `stop`. -/
def slice? (text : String) (start stop : Nat) : Option String :=
  if start ≤ stop then
    ((dropBytes? start text.toList).bind (takeBytes? (stop - start))).map String.ofList
  else none

/-- The text from byte `start` up to byte `stop`, or a report of the range. -/
def slice (text : String) (start stop : Nat) : Except Error String :=
  match slice? text start stop with
  | some part => .ok part
  | none => .error (.sourceRange start stop text.utf8ByteSize)

end BoxTree.Text
