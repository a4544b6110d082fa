import BoxTree.Syntax.Forest

namespace BoxTree

/-!
# Building a document

A builder writes a text and the tree of its parts at the same time. A node spans the text that
is written while it is open.

* `Step` — start a node, finish it, add a leaf, or write text that belongs to no node of its own.
* `Builder.perform`, `Builder.run` — one step, many steps.
* `Builder.build` — the document, or the first mistake.
-/

/-- The mistakes a list of steps can make. -/
inductive Fault where
  | unmatchedFinish
  | secondRoot
  | stillOpen
  | nothingBuilt
  deriving DecidableEq

namespace Fault

/-- What is reported of a mistake. -/
def reason : Fault → String
  | unmatchedFinish => "close() without a matching open()"
  | secondRoot => "a tree can only have one root"
  | stillOpen => "build() with nodes still open"
  | nothingBuilt => "build() on an empty tree"

/-- The mistake as an error. -/
def error (fault : Fault) : Error := .malformedTree fault.reason

end Fault

/-- One step of building. -/
inductive Step where
  /-- Start a node that spans what is written until it is finished. -/
  | start (name : String)
  /-- Finish the node started last. -/
  | finish
  /-- Write a text that is a node without children. -/
  | leaf (name text : String)
  /-- Write a text that is a leaf of the same name. -/
  | token (text : String)
  /-- Write a text that is no node. -/
  | gap (text : String)
  deriving DecidableEq

/-- A document in the making. -/
structure Builder where
  forest : Forest := {}
  text : String := ""
  /-- The nodes not finished yet, the innermost first. -/
  unfinished : List Nat := []
  root : Option Nat := none
  /-- The first mistake. -/
  mistake : Option Error := none

namespace Builder

/-- The length of the text so far. -/
def length (builder : Builder) : Nat := builder.text.utf8ByteSize

/-- Keeps a mistake, unless there is an earlier one. -/
def note (builder : Builder) (error : Error) : Builder :=
  { builder with mistake := builder.mistake.or (some error) }

/-- Adds a node below the innermost unfinished one and answers with its number, if it could. A
    node that is below none becomes the root, of which there is only one. -/
def attach (builder : Builder) (label : Label) : Builder × Option Nat :=
  match builder.unfinished.head?, builder.root with
  | none, some _ => (builder.note Fault.secondRoot.error, none)
  | above, root =>
    match builder.forest.add label above with
    | .ok (forest, id) =>
      ({ builder with forest, root := if above.isNone then some id else root }, some id)
    | .error error => (builder.note error, none)

/-- Writes text. -/
def write (builder : Builder) (text : String) : Builder :=
  { builder with text := builder.text ++ text }

/-- Starts a node where the text ends. A node that could not be added is not open. -/
def startNode (builder : Builder) (name : String) : Builder :=
  match builder.attach ⟨name, builder.length, builder.length⟩ with
  | (builder, some id) => { builder with unfinished := id :: builder.unfinished }
  | (builder, none) => builder

/-- Finishes the innermost node where the text ends. -/
def finishNode (builder : Builder) : Builder :=
  match builder.unfinished with
  | [] => builder.note Fault.unmatchedFinish.error
  | id :: outer =>
    { builder with unfinished := outer, forest := builder.forest.setStop id builder.length }

/-- Writes text and adds a leaf that spans it. The text stays even if the leaf cannot be added. -/
def addLeaf (builder : Builder) (name text : String) : Builder :=
  let after := builder.write text
  (after.attach ⟨name, builder.length, after.length⟩).1

/-- One step. -/
def perform (builder : Builder) : Step → Builder
  | .start name => builder.startNode name
  | .finish => builder.finishNode
  | .leaf name text => builder.addLeaf name text
  | .token text => builder.addLeaf text text
  | .gap text => builder.write text

/-- Many steps. -/
def run (builder : Builder) (steps : List Step) : Builder := steps.foldl perform builder

/-- The document, if there was no mistake, every node is finished and there is a root. -/
def build (builder : Builder) : Except Error Document :=
  match builder.mistake, builder.unfinished, builder.root with
  | some error, _, _ => .error error
  | none, _ :: _, _ => .error Fault.stillOpen.error
  | none, [], none => .error Fault.nothingBuilt.error
  | none, [], some root => Document.ofForest builder.forest root builder.text

end Builder

/-- The document that a list of steps describes. -/
def Document.ofSteps (steps : List Step) : Except Error Document :=
  (Builder.run {} steps).build

end BoxTree
