import BoxTree.Error

namespace BoxTree

/-!
# Forests of named spans

Nodes are numbered in the order in which they are added, and are never taken away.

* `Label` — the name of a node and the bytes of the source that it spans.
* `Forest.add` — one more node, as the last child of a node or as a root of its own.
* `Forest.node?`, `Forest.children?`, `Forest.parent?` — what is known of a number.
* `Forest.Grown` — the forests that adding nodes leads to.
* `Forest.preorder` — the numbers of a subtree, each node before its children.
-/

/-- The name of a node and the bytes of the source that it spans. -/
structure Label where
  name : String
  start : Nat
  stop : Nat
  deriving DecidableEq, Inhabited

/-- A node of a forest. -/
structure Node where
  /-- The number of the node. -/
  id : Nat
  label : Label
  /-- The number of the parent; a root has none. -/
  parent : Option Nat
  /-- The numbers of the children, in order. -/
  children : Array Nat := #[]
  /-- The place of the node among the children of its parent. -/
  position : Nat := 0
  deriving DecidableEq

/-- Nodes by number. -/
structure Forest where
  nodes : Array Node := #[]
  deriving DecidableEq

namespace Forest

/-- How many nodes there are. -/
def size (forest : Forest) : Nat := forest.nodes.size

/-- The node of a number. -/
def node? (forest : Forest) (id : Nat) : Option Node := forest.nodes[id]?

/-- Whether a number belongs to a node. -/
def contains (forest : Forest) (id : Nat) : Bool := id < forest.size

/-- The children of a node. -/
def children? (forest : Forest) (id : Nat) : Option (Array Nat) :=
  (forest.node? id).map Node.children

/-- The parent of a node that has one. -/
def parent? (forest : Forest) (id : Nat) : Option Nat := (forest.node? id).bind Node.parent

/-- The label of a node. -/
def label (forest : Forest) (id : Nat) : Label :=
  match forest.node? id with
  | some node => node.label
  | none => default

/-- Adds a node as the last child of `parent`, or as a root, and answers with its number. The
    parent must be there already. -/
def add (forest : Forest) (label : Label) (parent : Option Nat) :
    Except Error (Forest × Nat) :=
  let id := forest.size
  match parent with
  | none => .ok (⟨forest.nodes.push { id, label, parent }⟩, id)
  | some above =>
    match forest.node? above with
    | none => .error (.unknownNode above)
    | some node =>
      let siblings := { node with children := node.children.push id }
      let new := { id, label, parent, position := node.children.size }
      .ok (⟨(forest.nodes.setIfInBounds above siblings).push new⟩, id)

/-- Moves the end of a node's span. -/
def setStop (forest : Forest) (id stop : Nat) : Forest :=
  match forest.node? id with
  | none => forest
  | some node =>
    ⟨forest.nodes.setIfInBounds id { node with label := { node.label with stop } }⟩

/-- The forests that arise from the empty one by adding nodes. -/
inductive Grown : Forest → Prop where
  | empty : Grown {}
  | add {forest after : Forest} {label : Label} {parent : Option Nat} {id : Nat}
      (grown : Grown forest) (added : forest.add label parent = .ok (after, id)) : Grown after

/-! ### Order -/

/-- The subtrees of the numbers on the stack, each node before its children, visiting at most
    `fuel` nodes. -/
def preorderFrom (forest : Forest) : Nat → List Nat → Except Error (List Nat)
  | _, [] => .ok []
  | 0, id :: _ => .error (.unknownNode id)
  | fuel + 1, id :: stack =>
    match forest.node? id with
    | none => .error (.unknownNode id)
    | some node =>
      (preorderFrom forest fuel (node.children.toList ++ stack)).map (id :: ·)

/-- The subtree of a number, each node before its children. A subtree has no more nodes than the
    forest, so the walk always ends by itself; an unknown number is reported. -/
def preorder (forest : Forest) (id : Nat) : Except Error (List Nat) :=
  match forest.node? id with
  | none => .error (.unknownNode id)
  | some _ => preorderFrom forest forest.size [id]

end Forest

/-! ### Documents -/

/-- A text together with the tree of its parts. -/
structure Document where
  forest : Forest
  /-- The number of the node that spans the text. -/
  root : Nat
  text : String
  deriving DecidableEq

namespace Document

/-- A document whose root is a node of the forest. -/
def ofForest (forest : Forest) (root : Nat) (text : String) : Except Error Document :=
  if forest.contains root then .ok ⟨forest, root, text⟩ else .error (.unknownNode root)

end Document

end BoxTree
