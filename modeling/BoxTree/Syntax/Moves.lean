import BoxTree.Syntax.Cursor

namespace BoxTree

/-!
# Moves of a cursor

* `Move` — what a cursor can be told to do.
* `Cursor.step` — one move, with the answer whether it was possible.
* `Cursor.trip`, `Cursor.reach` — many moves: the answers and stops on the way, and the end of it.
-/

/-- What a cursor can be told to do. -/
inductive Move where
  | firstChild
  | nextSibling
  | parent
  /-- Stay, and tell whether there is a next sibling. -/
  | peek
  deriving DecidableEq

namespace Cursor

variable {κ : Type} [Cursor κ]

/-- Goes where a move leads, and stays where it leads nowhere. -/
def go (c : κ) : Option κ → Bool × κ
  | some target => (true, target)
  | none => (false, c)

/-- One move: whether it was possible, and the cursor after it. -/
def step (c : κ) : Move → Bool × κ
  | .firstChild => go c (firstChild? c)
  | .nextSibling => go c (nextSibling? c)
  | .parent => go c (parent? c)
  | .peek => (hasNextSibling c, c)

/-- Moves in turn: the answer to each of them, and the cursor after it. -/
def trip (c : κ) : List Move → List (Bool × κ)
  | [] => []
  | move :: rest => step c move :: trip (step c move).2 rest

/-- The cursor after all moves. -/
def reach (c : κ) : List Move → κ
  | [] => c
  | move :: rest => reach (step c move).2 rest

end Cursor

end BoxTree
