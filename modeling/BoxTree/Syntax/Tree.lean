import BoxTree.Syntax.Forest

namespace BoxTree

/-!
# Trees

What a node of a forest looks like from above: its label, and the trees of its children. A forest
keeps the links between numbers; a tree has no numbers to follow, and what is said of it is said by
recursion on its children.

* `Tree` — a node with the trees of its children.
* `Tree.preorder` — the numbers of a tree, each node before its children.
* `Forest.tree` — the tree of a node.
-/

/-- A node with the trees of its children. -/
inductive Tree where
  | node (id : Nat) (label : Label) (children : List Tree)

namespace Tree

/-- The number of the topmost node. -/
def id : Tree → Nat
  | node id _ _ => id

/-- The label of the topmost node. -/
def label : Tree → Label
  | node _ label _ => label

/-- The trees below the topmost node. -/
def children : Tree → List Tree
  | node _ _ children => children

mutual

/-- The numbers of a tree, each node before its children. -/
def preorder : Tree → List Nat
  | node id _ children => id :: preorderAll children

/-- The numbers of several trees in turn. -/
def preorderAll : List Tree → List Nat
  | [] => []
  | tree :: rest => preorder tree ++ preorderAll rest

end

end Tree

namespace Forest

/-- The tree of a node down to a depth. -/
def treeTo (forest : Forest) : Nat → Nat → Tree
  | 0, id => .node id (forest.label id) []
  | depth + 1, id =>
    .node id (forest.label id) (((forest.children? id).getD #[]).toList.map (treeTo forest depth))

/-- The tree of a node. No tree is deeper than the forest has nodes. -/
def tree (forest : Forest) (id : Nat) : Tree := treeTo forest forest.size id

end Forest

end BoxTree
