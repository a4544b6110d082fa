import BoxTree.Syntax.Builder

namespace BoxTree

/-!
# Nesting

What a list of steps describes, read as a bracketed text rather than one step after the other.

* `Step.SpellsTree` — the steps, without those that write gaps, of exactly one tree.
* `Step.Mistaken`, `Step.FirstMistake` — a step that cannot follow those before it, and the first such step.
* `Part` — a gap, or a node with the parts inside it; `Part.steps`, `Part.text` — the steps that build it, and
  what they write.
* `Part.nested`, `Part.nodes` — the nodes of a part in the order in which they are added, as parts and with
  their links and spans.
-/

/-! ### Steps -/

namespace Step

/-- The text that a step writes. -/
def text : Step → String
  | start _ | finish => ""
  | leaf _ text | token text | gap text => text

/-- Whether a step writes a text that is no node. -/
def isGap : Step → Bool
  | gap _ => true
  | start _ | finish | leaf .. | token _ => false

/-- Steps without those that write gaps. -/
def ungapped (steps : List Step) : List Step := steps.filter fun step => !step.isGap

/-- Whether a step adds a node. -/
def addsNode : Step → Bool
  | start _ | leaf .. | token _ => true
  | finish | gap _ => false

/-- Whether a step starts a node that is to be finished. -/
def isStart : Step → Bool
  | start _ => true
  | finish | leaf .. | token _ | gap _ => false

/-- How many nodes are started that are to be finished. -/
def starts (steps : List Step) : Nat := steps.countP isStart

/-- How many nodes are finished. -/
def finishes (steps : List Step) : Nat := steps.count finish

/-- How many nodes are added. -/
def added (steps : List Step) : Nat := steps.countP addsNode

/-- What steps write. -/
def written (steps : List Step) : String := String.join (steps.map text)

/-- The steps of exactly one tree: a node without children, or the start of a node, the trees of its
    children, and its end. -/
inductive SpellsTree : List Step → Prop where
  | leaf (name text : String) : SpellsTree [.leaf name text]
  | token (text : String) : SpellsTree [.token text]
  | node (name : String) {inside : List (List Step)} (children : ∀ steps ∈ inside, SpellsTree steps) :
      SpellsTree (.start name :: (inside.flatten ++ [.finish]))

/-! ### Mistakes -/

/-- A step that cannot follow those before it, with the reason. Among those there must be no mistake. -/
inductive Mistaken (before : List Step) : Step → String → Prop where
  /-- There is nothing to finish. -/
  | finish (closed : starts before = finishes before) :
      Mistaken before .finish "close() without a matching open()"
  /-- There is a root, and no node that is not finished yet. -/
  | second {step earlier : Step} (adds : step.addsNode = true) (closed : starts before = finishes before)
      (mem : earlier ∈ before) (rooted : earlier.addsNode = true) :
      Mistaken before step "a tree can only have one root"

/-- No step is a mistake after those before it. -/
def Faultless (steps : List Step) : Prop :=
  ∀ before step behind reason, steps = before ++ step :: behind → ¬ Mistaken before step reason

/-- The first mistake of all steps has this reason. -/
def FirstMistake (steps : List Step) (reason : String) : Prop :=
  ∃ before step behind, steps = before ++ step :: behind ∧ Faultless before ∧
    Mistaken before step reason

end Step

/-! ### Parts -/

/-- A part of a document: a text that is no node, or a node with the parts inside it. -/
inductive Part where
  | gap (text : String)
  | leaf (name text : String)
  | token (text : String)
  | node (name : String) (inside : List Part)

namespace Part

/-- Whether a part is no node. -/
def isGap : Part → Bool
  | gap _ => true
  | leaf .. | token _ | node .. => false

/-- The name of a node. -/
def name : Part → String
  | gap _ => ""
  | leaf name _ | node name _ => name
  | token text => text

/-- The parts inside a node. -/
def inside : Part → List Part
  | gap _ | leaf .. | token _ => []
  | node _ inside => inside

mutual

/-- The steps that build a part. -/
def steps : Part → List Step
  | gap text => [.gap text]
  | leaf name text => [.leaf name text]
  | token text => [.token text]
  | node name inside => .start name :: (stepsAll inside ++ [.finish])

/-- The steps that build several parts in turn. -/
def stepsAll : List Part → List Step
  | [] => []
  | part :: rest => steps part ++ stepsAll rest

end

mutual

/-- What is written of a part. -/
def text : Part → String
  | gap text | leaf _ text | token text => text
  | node _ inside => textAll inside

/-- What is written of several parts in turn. -/
def textAll : List Part → String
  | [] => ""
  | part :: rest => text part ++ textAll rest

end

mutual

/-- The nodes of a part, each before those inside it. -/
def nested : Part → List Part
  | gap _ => []
  | leaf name text => [leaf name text]
  | token text => [token text]
  | node name inside => node name inside :: nestedAll inside

/-- The nodes of several parts in turn. -/
def nestedAll : List Part → List Part
  | [] => []
  | part :: rest => nested part ++ nestedAll rest

end

/-! ### Nodes of parts -/

/-- The numbers of the topmost nodes, if numbers are given from `id` on. -/
def roots (id : Nat) : List Part → List Nat
  | [] => []
  | part :: rest => (if part.isGap then [] else [id]) ++ roots (id + part.nested.length) rest

/-- The topmost node of a part that is a node: its number, the place where it begins, and its links. -/
def topNode (parent : Option Nat) (position id start : Nat) (part : Part) : Node where
  id
  label := ⟨part.name, start, start + part.text.utf8ByteSize⟩
  parent
  children := (roots (id + 1) part.inside).toArray
  position

mutual

/-- The nodes of a part by number, from `id` on. -/
def nodes (parent : Option Nat) (position id start : Nat) : Part → List Node
  | gap _ => []
  | leaf name text => [topNode parent position id start (leaf name text)]
  | token text => [topNode parent position id start (token text)]
  | node name inside =>
    topNode parent position id start (node name inside) :: nodesAll (some id) 0 (id + 1) start inside

/-- The nodes of several parts in turn. -/
def nodesAll (parent : Option Nat) (position id start : Nat) : List Part → List Node
  | [] => []
  | part :: rest =>
    nodes parent position id start part ++
      nodesAll parent (if part.isGap then position else position + 1) (id + part.nested.length)
        (start + part.text.utf8ByteSize) rest

end

end Part

end BoxTree
