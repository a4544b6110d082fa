import BoxTree.Syntax.Forest

namespace BoxTree

/-!
# Which nodes are shown

* `Visibility` — whether a node is left out, shown, or shown on one line.
* `Filter` — decides on one node after another. A decision may depend on the nodes asked about
  before.
* `NameRules` — a filter that goes by name.
-/

/-- What becomes of a node. -/
inductive Visibility where
  /-- The node and everything below it is left out. -/
  | hidden
  /-- The node is shown, and so are its children, each as its own decision says. -/
  | shown
  /-- The node is shown on one line, without its children. -/
  | collapsed
  deriving DecidableEq

/-- Decides on a node, given the nodes asked about before, the latest first. -/
def Filter : Type := List Label → Label → Visibility

namespace Filter

/-- Shows every node. -/
def all : Filter := fun _ _ => .shown

/-- The decision depends on the node alone. -/
def ofLabel (decide : Label → Visibility) : Filter := fun _ label => decide label

/-- The first question gets the first decision, and so on; then every node is shown. -/
def ofSequence (decisions : List Visibility) : Filter :=
  fun asked _ => decisions.getD asked.length .shown

/-- A node is decided by the first entry with its span; one without an entry is shown. -/
def ofSpans (entries : List (Nat × Nat × Visibility)) : Filter :=
  ofLabel fun label =>
    match entries.find? fun entry => entry.1 = label.start && entry.2.1 = label.stop with
    | some entry => entry.2.2
    | none => .shown

/-- The same filter after the nodes of `earlier` were asked about. -/
def after (filter : Filter) (earlier : List Label) : Filter :=
  fun asked => filter (asked ++ earlier)

end Filter

/-! ### By name -/

/-- The names of the nodes to hide and to collapse. -/
structure NameRules where
  hidden : List String := []
  collapsed : List String := []
  deriving DecidableEq

namespace NameRules

/-- Hides nodes of these names, too. -/
def hide (rules : NameRules) (names : List String) : NameRules :=
  { rules with hidden := rules.hidden ++ names }

/-- Collapses nodes of these names, too. -/
def collapse (rules : NameRules) (names : List String) : NameRules :=
  { rules with collapsed := rules.collapsed ++ names }

/-- A name to hide is hidden even if it is to be collapsed as well. -/
def decide (rules : NameRules) (name : String) : Visibility :=
  if rules.hidden.contains name then .hidden
  else if rules.collapsed.contains name then .collapsed
  else .shown

/-- The rules as a filter. -/
def filter (rules : NameRules) : Filter := Filter.ofLabel fun label => rules.decide label.name

end NameRules

end BoxTree
