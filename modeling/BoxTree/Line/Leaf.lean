import BoxTree.Line.Basic
import BoxTree.Text.Rows

namespace BoxTree

/-!
# The lines of a single node

What is written for a node, before the connectors of the nodes around it.

* `openLine` — a node whose children follow.
* `collapsedLine` — a node whose children are left out.
* `childlessLines` — a node without children, with its text. A text of several rows becomes a block
  between quotes, one line a row.
-/

variable (theme : Theme)

/-- A node whose children follow. -/
def openLine (name : String) : Line :=
  ⟨[.colored name theme.name, .colored ":" theme.colon]⟩

/-- A node whose children are left out. -/
def collapsedLine (name : String) : Line :=
  ⟨[.colored name theme.name, .colored ": " theme.colon, ⟨ellipsisText, .ellipsis⟩]⟩

/-! ### Leaves -/

/-- One row of a block, indented. -/
def rowSegment (row : List Char) : Segment :=
  .colored (indent ++ String.ofList (Text.dropReturn row)) theme.source

/-- The rows of a block. All but the last are marked where they end. -/
def rowLines : List (List Char) → List Line
  | [] => []
  | [row] => [⟨[rowSegment theme row]⟩]
  | row :: rest =>
    ⟨[rowSegment theme row, .colored rowEndText theme.rowEnd]⟩ :: rowLines rest

/-- A text of several rows between quotes. -/
def blockLines (name text : String) : List Line :=
  ⟨[.colored name theme.name, .colored ": " theme.colon,
    .colored quotesText theme.quotes]⟩ ::
  (rowLines theme (Text.splitRows text.toList) ++
    [⟨[.colored (indent ++ quotesText) theme.quotes]⟩])

/-- A node without children. One that is named after its own text is just that text. -/
def childlessLines (name text : String) : List Line :=
  if text = name then [⟨[.colored text theme.source]⟩]
  else if '\n' ∈ text.toList then blockLines theme name text
  else
    [⟨[.colored name theme.name, .colored ": " theme.colon, .colored text theme.source]⟩]

end BoxTree
