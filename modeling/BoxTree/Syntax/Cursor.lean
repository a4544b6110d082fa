import BoxTree.Syntax.Forest

namespace BoxTree

/-!
# Cursors

* `Cursor` — something that stands on a node of a tree and can be moved to nodes nearby. A move
  that is not possible answers `none`.
* `Place` — a cursor on a forest.
* `Limited` — a cursor that climbs only so often, or peeks in another way.
* `Cursor.following`, `Cursor.climb` — several moves at once.
-/

/-- A position in a tree. -/
class Cursor (κ : Type) where
  /-- The label of the node it stands on. -/
  label : κ → Label
  firstChild? : κ → Option κ
  nextSibling? : κ → Option κ
  parent? : κ → Option κ
  /-- Whether there is a next sibling, told without moving. -/
  hasNextSibling : κ → Bool := fun c => (nextSibling? c).isSome
  /-- No walk from here meets more nodes than this. -/
  extent : κ → Nat

namespace Cursor

variable {κ : Type} [Cursor κ]

/-- The next siblings, at most `n`. -/
def followingUpTo : Nat → κ → List κ
  | 0, _ => []
  | n + 1, c =>
    match nextSibling? c with
    | none => []
    | some next => next :: followingUpTo n next

/-- The siblings behind the cursor. -/
def following (c : κ) : List κ := followingUpTo (extent c) c

/-- Climbs `n` times; where that is not possible the cursor stays. -/
def climb : Nat → κ → κ
  | 0, c => c
  | n + 1, c => climb n ((parent? c).getD c)

end Cursor

/-! ### On a forest -/

/-- A node of a forest, to walk from. -/
structure Place where
  forest : Forest
  id : Nat
  deriving DecidableEq

namespace Place

/-- The node stood on. -/
def node? (place : Place) : Option Node := place.forest.node? place.id

/-- The children of the parent. -/
def siblings? (place : Place) : Option (Array Nat) :=
  (place.forest.parent? place.id).bind place.forest.children?

/-- The place among the siblings. -/
def position (place : Place) : Nat :=
  match place.node? with
  | some node => node.position
  | none => 0

/-- The node of a number, if the forest has it. -/
def ofId (forest : Forest) (id : Nat) : Except Error Place :=
  if forest.contains id then .ok ⟨forest, id⟩ else .error (.unknownNode id)

/-- The same forest seen from another node. -/
def moved (place : Place) (id : Nat) : Place := { place with id }

instance : Cursor Place where
  label place := place.forest.label place.id
  firstChild? place :=
    ((place.forest.children? place.id).bind fun children => children[0]?).map place.moved
  nextSibling? place :=
    (place.siblings?.bind fun siblings => siblings[place.position + 1]?).map place.moved
  parent? place := (place.forest.parent? place.id).map place.moved
  hasNextSibling place :=
    match place.siblings? with
    | some siblings => place.position + 1 < siblings.size
    | none => false
  extent place := place.forest.size

end Place

/-- The place of a document's root. -/
def Document.place (document : Document) : Place := ⟨document.forest, document.root⟩

/-! ### Limits -/

/-- How a limited cursor tells whether there is a next sibling. -/
inductive Peek where
  /-- As the cursor inside does. -/
  | inner
  /-- By trying to move. -/
  | byMoving
  /-- Always with the same answer. -/
  | fixed (answer : Bool)
  deriving DecidableEq

/-- A cursor that climbs at most `climbs` times, if there is a bound, and peeks as told. -/
structure Limited (κ : Type) where
  inner : κ
  climbs : Option Nat := none
  peek : Peek := .inner
  deriving DecidableEq

namespace Limited

variable {κ : Type} [Cursor κ]

/-- The climb of the cursor inside, as long as any are left. -/
def parent? (c : Limited κ) : Option (Limited κ) :=
  match c.climbs with
  | none => (Cursor.parent? c.inner).map fun above => { c with inner := above }
  | some 0 => none
  | some (left + 1) =>
    (Cursor.parent? c.inner).map fun above => { c with inner := above, climbs := some left }

instance : Cursor (Limited κ) where
  label c := Cursor.label c.inner
  firstChild? c := (Cursor.firstChild? c.inner).map fun child => { c with inner := child }
  nextSibling? c := (Cursor.nextSibling? c.inner).map fun next => { c with inner := next }
  parent? := parent?
  hasNextSibling c :=
    match c.peek with
    | .inner => Cursor.hasNextSibling c.inner
    | .byMoving => (Cursor.nextSibling? c.inner).isSome
    | .fixed answer => answer
  extent c := Cursor.extent c.inner

end Limited

end BoxTree
