import BoxTree.Line.Leaf
import BoxTree.Syntax.Tree
import BoxTree.Text.Slice
import BoxTree.Visibility

namespace BoxTree

/-!
# The lines of a tree, all at once

Given what becomes of each node, the lines of a tree follow by recursion: the node's own line, then
the lines of its children, each child in its own branch of the box. No cursor moves and no level is kept,
and the lines of collapsed and of opened nodes are spelled out once more.

* `branched` — lines as the child of a node.
* `Tree.outline` — the lines of a tree, and the error at the first leaf whose span is no part of
  the source.
-/

/-- The lines of a child inside the box of its parent. The branch meets the first line; a rail runs
    along the others, unless the child is the last one shown. -/
def branched (tree : Color) (isLast : Bool) : List Line → List Line
  | [] => []
  | first :: rest =>
    let branch := if isLast then "└╴" else "├╴"
    let rail := if isLast then "  " else "│ "
    ⟨.colored branch tree :: first.segments⟩ ::
      rest.map fun line => ⟨.colored rail tree :: line.segments⟩

namespace Tree

variable (theme : Theme) (source : String) (decide : Nat → Visibility)

mutual

/-- The lines of a tree, given what becomes of each node, and the error that ends them. -/
def outline : Tree → List Line × Option Error
  | node id label children =>
    match decide id with
    | .hidden => ([], none)
    | .collapsed =>
      ([⟨[.colored label.name theme.name, .colored ": " theme.colon, ⟨"…", .ellipsis⟩]⟩], none)
    | .shown =>
      match children with
      | [] =>
        match Text.slice source label.start label.stop with
        | .ok text => (childlessLines theme label.name text, none)
        | .error error => ([], some error)
      | child :: rest =>
        let (lines, error) := outlineAll (child :: rest)
        (⟨[.colored label.name theme.name, .colored ":" theme.colon]⟩ :: lines, error)

/-- The lines of the children of a node, up to the first error. -/
def outlineAll : List Tree → List Line × Option Error
  | [] => ([], none)
  | tree :: rest =>
    let isLast := rest.all fun tree => decide tree.id = .hidden
    match outline tree with
    | (lines, some error) => (branched theme.tree isLast lines, some error)
    | (lines, none) =>
      let (more, error) := outlineAll rest
      (branched theme.tree isLast lines ++ more, error)

end

end Tree

end BoxTree
