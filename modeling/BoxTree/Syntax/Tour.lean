import BoxTree.Syntax.Cursor
import BoxTree.Syntax.Tree

namespace BoxTree

/-!
# Ways through a subtree

Two ways to come by every node of a subtree, step by step and without a bound on the steps.

* `Search` — with a stack of the numbers still to be taken; `Search.round` takes one of them.
* `Tour` — with a cursor that goes down to the first child, on to the next sibling, and up where there is
  none; `Tour.next?` is one step.
* `Search.run?`, `Tour.stops?` — all rounds or steps, if there are no more of them than allowed.
* `Tree.visits` — the nodes that a tour comes by, by recursion on the tree.
-/

/-! ### With a stack -/

/-- A walk with a stack, between two rounds. -/
structure Search where
  /-- The numbers taken so far, in order. -/
  collected : List Nat := []
  /-- The numbers still to be taken. The top of the stack is the last one. -/
  stack : List Nat
  deriving DecidableEq

namespace Search

/-- One round: the number on top of the stack is taken, and its children are put on the stack, the last
    one first. There is none on the empty stack. -/
def round (forest : Forest) (search : Search) : Option (Except Error Search) :=
  search.stack.getLast?.map fun id =>
    match forest.node? id with
    | none => .error (.unknownNode id)
    | some node =>
      .ok ⟨search.collected ++ [id], search.stack.dropLast ++ node.children.toList.reverse⟩

/-- What has been collected once the stack is empty, or the error that came first; `none` if it takes more
    rounds than allowed. -/
def run? (forest : Forest) (rounds : Nat) (search : Search) : Option (Except Error (List Nat)) :=
  match search.round forest with
  | none => some (.ok search.collected)
  | some (.error error) => some (.error error)
  | some (.ok after) =>
    match rounds with
    | 0 => none
    | rounds + 1 => run? forest rounds after

variable {forest : Forest} {search after : Search} {rounds : Nat}

/-- On the empty stack the walk is over. -/
theorem run?_of_none (h : search.round forest = none) :
    run? forest rounds search = some (.ok search.collected) := by
  rw [run?.eq_def, h]

/-- A number that no node has ends it. -/
theorem run?_of_error {error : Error} (h : search.round forest = some (.error error)) :
    run? forest rounds search = some (.error error) := by
  rw [run?.eq_def, h]

/-- Where a round is due and none is allowed there is no answer. -/
theorem run?_zero_of_ok (h : search.round forest = some (.ok after)) : run? forest 0 search = none := by
  rw [run?.eq_def, h]

/-- A round leaves the rest to those that are still allowed. -/
theorem run?_succ_of_ok (h : search.round forest = some (.ok after)) :
    run? forest (rounds + 1) search = run? forest rounds after := by
  rw [run?.eq_def, h]

end Search

/-! ### With a cursor -/

/-- A cursor on a tour of the subtree under the node where it began. -/
structure Tour (κ : Type) where
  cursor : κ
  /-- How many levels the cursor is below the node where it began. -/
  depth : Nat := 0
  /-- The subtree under the cursor is done with. -/
  done : Bool := false
  deriving DecidableEq

namespace Tour

variable {κ : Type} [Cursor κ]

/-- One step: down to the first child if there is one; from a node that is done with, on to the next
    sibling, or else up. A tour ends where it began. -/
def next? (tour : Tour κ) : Option (Tour κ) :=
  match tour.done, tour.depth with
  | false, depth =>
    match Cursor.firstChild? tour.cursor with
    | some child => some ⟨child, depth + 1, false⟩
    | none => some { tour with done := true }
  | true, 0 => none
  | true, depth + 1 =>
    match Cursor.nextSibling? tour.cursor with
    | some sibling => some ⟨sibling, depth + 1, false⟩
    | none => (Cursor.parent? tour.cursor).map fun above => ⟨above, depth, true⟩

/-- Where the cursor stands before each step and at the end; `none` if there are more steps than allowed. -/
def stops? (steps : Nat) (tour : Tour κ) : Option (List κ) :=
  match tour.next? with
  | none => some [tour.cursor]
  | some after =>
    match steps with
    | 0 => none
    | steps + 1 => (stops? steps after).map (tour.cursor :: ·)

variable {tour after : Tour κ} {steps : Nat}

/-- A tour that is over stays where it is. -/
theorem stops?_of_none (h : tour.next? = none) : stops? steps tour = some [tour.cursor] := by
  rw [stops?.eq_def, h]

/-- A step leads on from where the cursor stands. -/
theorem stops?_succ_of_some (h : tour.next? = some after) :
    stops? (steps + 1) tour = (stops? steps after).map (tour.cursor :: ·) := by
  rw [stops?.eq_def, h]

end Tour

namespace Tree

mutual

/-- The nodes that a tour of a tree comes by: the topmost one before and behind the tours of its
    children. -/
def visits : Tree → List Nat
  | node id _ children => id :: (visitsAll children ++ [id])

/-- The nodes that tours of several trees come by in turn. -/
def visitsAll : List Tree → List Nat
  | [] => []
  | tree :: rest => visits tree ++ visitsAll rest

end

end Tree

end BoxTree
