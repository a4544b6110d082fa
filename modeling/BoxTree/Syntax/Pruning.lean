import BoxTree.Syntax.Tree
import BoxTree.Visibility

namespace BoxTree

/-!
# Pruned trees

What is left of a tree once everything is taken away on which no line depends.

* `Tree.pruned` — a tree without the hidden trees below its root, and without what is below a collapsed
  node.
* `Tree.unnumbered` — a tree without its numbers, to compare trees of different forests.
* `Forest.byLabel` — decisions on numbers that go by the labels of the nodes.
-/

namespace Tree

section Pruned

variable (decide : Nat → Visibility)

mutual

/-- The tree without the hidden trees below its root, and without what is below a collapsed node. -/
def pruned : Tree → Tree
  | node id label children =>
    match decide id with
    | .collapsed => node id label []
    | .hidden | .shown => node id label (prunedAll children)

/-- Several trees without the hidden ones, each pruned. -/
def prunedAll : List Tree → List Tree
  | [] => []
  | tree :: rest =>
    match decide tree.id with
    | .hidden => prunedAll rest
    | .shown | .collapsed => pruned tree :: prunedAll rest

end

end Pruned

mutual

/-- The tree with zero for each of its numbers. -/
def unnumbered : Tree → Tree
  | node _ label children => node 0 label (unnumberedAll children)

/-- Several trees with zero for each of their numbers. -/
def unnumberedAll : List Tree → List Tree
  | [] => []
  | tree :: rest => unnumbered tree :: unnumberedAll rest

end

end Tree

namespace Forest

/-- What is decided on a number by the label of its node. -/
def byLabel (forest : Forest) (decide : Label → Visibility) (id : Nat) : Visibility :=
  decide (forest.label id)

end Forest

end BoxTree
