import BoxTree.Line.Leaf
import BoxTree.Syntax.Cursor
import BoxTree.Text.Slice
import BoxTree.Visibility

namespace BoxTree

/-!
# The lines of a tree, one at a time

A stream walks a cursor through a tree and yields the lines of the nodes it meets, without
looking further ahead than the next line needs.

* `Level` — a node whose children are being walked: how the box around the present child is drawn,
  and what has been decided on the children behind it.
* `Stream` — the cursor, the levels from the inside out, and the lines not yet yielded.
* `Stream.visit`, `Stream.onward` — the two moves: take the node under the cursor, go on to the
  next one.
* `Stream.next` — the next line; `Stream.pulls` and `Stream.after` — many calls of it.
* `Stream.finish` — the cursor back where the walk began.
* `Stream.consume` — hands every line to a function that may stop the walk.

A node is put to the filter once. Whether a child is the last one shown depends on the siblings
behind it, which therefore are decided early; their decisions wait in the level.
-/

/-! ### Levels -/

/-- A node whose children are being walked. -/
structure Level where
  /-- No child behind the present one is shown. -/
  isLast : Bool := false
  /-- The first line of the present child has been drawn. -/
  begun : Bool := false
  /-- The decisions on the children behind the present one, as far as they were needed. -/
  ahead : List Visibility := []
  deriving DecidableEq

namespace Level

/-- The piece of the box before the next line of the present child. -/
def connector (level : Level) : String :=
  match level.begun, level.isLast with
  | false, false => "├╴"
  | false, true => "└╴"
  | true, false => "│ "
  | true, true => indent

/-- The level once a line of the present child has been drawn. -/
def begin (level : Level) : Level := { level with begun := true }

/-- Some child behind the present one is known to be shown. -/
def showsMore (level : Level) : Bool := level.ahead.any (· ≠ .hidden)

/-- The levels from the inside out, as segments from the outside in. -/
def connectors (tree : Color) (levels : List Level) : List Segment :=
  levels.reverse.map fun level => .colored level.connector tree

/-- The lines of the present child inside the boxes of all levels, and the levels after that. -/
def draw (tree : Color) : List Level → List Line → List Line × List Level
  | levels, [] => ([], levels)
  | levels, line :: rest =>
    let (drawn, after) := draw tree (levels.map begin) rest
    (⟨connectors tree levels ++ line.segments⟩ :: drawn, after)

end Level

/-! ### The walk -/

/-- What a walk does next. -/
inductive Task where
  /-- Take the node under the cursor. -/
  | visit
  /-- The node under the cursor is done with. -/
  | onward
  /-- Nothing. -/
  | stop
  deriving DecidableEq

/-- A walk through the tree under a cursor. -/
structure Stream (κ : Type) where
  cursor : κ
  source : String
  theme : Theme
  filter : Filter
  task : Task := .visit
  /-- The nodes whose children are being walked, the innermost first. -/
  levels : List Level := []
  /-- The lines drawn and not yet yielded. -/
  pending : List Line := []
  /-- Where the cursor stood when the filter was asked, the latest first. -/
  asked : List κ := []
  /-- How many moves are left. A walk is given as many as a tree of its extent can take, so it never ends
      for want of them. -/
  moves : Nat

namespace Stream

variable {κ : Type} [Cursor κ]

/-- The walk of the tree under a cursor. It takes each node once and leaves it once. -/
def start (cursor : κ) (source : String) (theme : Theme) (filter : Filter) : Stream κ :=
  { cursor, source, theme, filter, moves := 2 * Cursor.extent cursor }

/-! ### Decisions -/

/-- What the filter says on a node, after it was asked about others. -/
def ask (filter : Filter) (asked : List κ) (place : κ) : Visibility :=
  filter (asked.map Cursor.label) (Cursor.label place)

/-- Asks about nodes in turn, up to the first that is not hidden. -/
def askUntilShown (filter : Filter) : List κ → List κ → List Visibility × List κ
  | [], asked => ([], asked)
  | place :: rest, asked =>
    match ask filter asked place with
    | .hidden =>
      let (decisions, asked) := askUntilShown filter rest (place :: asked)
      (.hidden :: decisions, asked)
    | decision => ([decision], place :: asked)

/-- The decision on the node under the cursor: made ahead, or made now. -/
def decide (stream : Stream κ) : Visibility × Stream κ :=
  match stream.levels with
  | { isLast, begun, ahead := decision :: ahead } :: outer =>
    (decision, { stream with levels := { isLast, begun, ahead } :: outer })
  | _ =>
    (ask stream.filter stream.asked stream.cursor,
      { stream with asked := stream.cursor :: stream.asked })

/-- Decides on the siblings behind the cursor until it is known whether one of them is shown, and
    makes the cursor's node the present child of its level. -/
def lookAhead (stream : Stream κ) : Stream κ :=
  match stream.levels with
  | [] => stream
  | level :: outer =>
    let (ahead, asked) :=
      if level.showsMore || level.ahead.isEmpty && !Cursor.hasNextSibling stream.cursor then
        (level.ahead, stream.asked)
      else
        let (more, asked) := askUntilShown stream.filter
          ((Cursor.following stream.cursor).drop level.ahead.length) stream.asked
        (level.ahead ++ more, asked)
    let isLast := !Level.showsMore { ahead }
    { stream with levels := { isLast, begun := false, ahead } :: outer, asked }

/-! ### Moves -/

/-- Draws lines of the node under the cursor. -/
def draw (stream : Stream κ) (lines : List Line) : Stream κ :=
  let (drawn, levels) := Level.draw stream.theme.tree stream.levels lines
  { stream with pending := stream.pending ++ drawn, levels }

/-- Draws a node that is shown, and goes to its first child if it has one. -/
def present (stream : Stream κ) : Stream κ × Option Error :=
  let label := Cursor.label stream.cursor
  match Cursor.firstChild? stream.cursor with
  | some child =>
    let drawn := stream.draw [openLine stream.theme label.name]
    ({ drawn with cursor := child, levels := {} :: drawn.levels, task := .visit }, none)
  | none =>
    match Text.slice stream.source label.start label.stop with
    | .error error => (stream, some error)
    | .ok text =>
      ({ stream.draw (childlessLines stream.theme label.name text) with task := .onward }, none)

/-- Takes the node under the cursor. -/
def visit (stream : Stream κ) : Stream κ × Option Error :=
  match stream.decide with
  | (.hidden, stream) => ({ stream with task := .onward }, none)
  | (.collapsed, stream) =>
    let stream := stream.lookAhead
    let name := (Cursor.label stream.cursor).name
    ({ stream.draw [collapsedLine stream.theme name] with task := .onward }, none)
  | (.shown, stream) => stream.lookAhead.present

/-- Goes on to the next sibling, or back to the parent if there is none. The walk ends where it
    began. -/
def onward (stream : Stream κ) : Stream κ × Option Error :=
  match stream.levels with
  | [] => ({ stream with task := .stop }, none)
  | _ :: outer =>
    match Cursor.nextSibling? stream.cursor with
    | some next => ({ stream with cursor := next, task := .visit }, none)
    | none =>
      match Cursor.parent? stream.cursor with
      | some parent => ({ stream with cursor := parent, levels := outer }, none)
      | none =>
        ({ stream with levels := outer }, some (.strayCursor (Cursor.label stream.cursor).name))

/-- The cursor after climbing out of every level. -/
def finish (stream : Stream κ) : κ := Cursor.climb stream.levels.length stream.cursor

/-- The walk ended early. -/
def abandon (stream : Stream κ) : Stream κ :=
  { stream with cursor := stream.finish, levels := [], task := .stop }

/-- One move. A move that fails ends the walk. -/
def advance (stream : Stream κ) : Stream κ × Option Error :=
  let stream := { stream with moves := stream.moves - 1 }
  let (after, error) :=
    match stream.task with
    | .visit => stream.visit
    | .onward => stream.onward
    | .stop => (stream, none)
  match error with
  | none => (after, none)
  | some error => (after.abandon, some error)

/-! ### Lines -/

/-- Moves, at most `fuel` times, until a line is drawn or the walk ends. -/
def search : Nat → Stream κ → Option (Except Error Line) × Stream κ
  | fuel, stream =>
    match stream.pending, fuel, stream.task with
    | line :: rest, _, _ => (some (.ok line), { stream with pending := rest })
    | [], 0, _ | [], _, .stop => (none, stream)
    | [], fuel + 1, _ =>
      match stream.advance with
      | (stream, some error) => (some (.error error), stream)
      | (stream, none) => search fuel stream

/-- The next line, or the error that ends the walk; `none` when it has ended. -/
def next (stream : Stream κ) : Option (Except Error Line) × Stream κ :=
  search stream.moves stream

/-- What the first `n` calls of `next` answer. -/
def pulls : Nat → Stream κ → List (Option (Except Error Line))
  | 0, _ => []
  | n + 1, stream => stream.next.1 :: pulls n stream.next.2

/-- The walk after `n` calls of `next`. -/
def after : Nat → Stream κ → Stream κ
  | 0, stream => stream
  | n + 1, stream => after n stream.next.2

/-- The answers of a filter to the questions asked, the latest first. -/
def answers (filter : Filter) : List κ → List (κ × Visibility)
  | [] => []
  | place :: earlier => (place, ask filter earlier place) :: answers filter earlier

/-! ### All lines -/

variable {α : Type}

/-- Hands lines over until one is refused, and answers with those not handed over. -/
def feed (take : α → Line → α × Option Error) : α → List Line → α × Option Error × List Line
  | acc, [] => (acc, none, [])
  | acc, line :: rest =>
    match take acc line with
    | (acc, none) => feed take acc rest
    | (acc, some error) => (acc, some error, rest)

/-- Hands the lines over until the walk ends, fails or a line is refused, in at most `fuel`
    moves. -/
def consumeUpTo (take : α → Line → α × Option Error) :
    Nat → α → Stream κ → α × Option Error × Stream κ
  | fuel, acc, stream =>
    match feed take acc stream.pending with
    | (acc, some error, rest) => (acc, some error, { stream with pending := rest })
    | (acc, none, rest) =>
      let stream := { stream with pending := rest }
      match fuel, stream.task with
      | 0, _ | _, .stop => (acc, none, stream)
      | fuel + 1, _ =>
        match stream.advance with
        | (stream, some error) => (acc, some error, stream)
        | (stream, none) => consumeUpTo take fuel acc stream

/-- Hands the lines over until the walk ends, fails or a line is refused. -/
def consume (take : α → Line → α × Option Error) (acc : α) (stream : Stream κ) :
    α × Option Error × Stream κ :=
  consumeUpTo take stream.moves acc stream

/-- All lines and the error that ended the walk, if any. -/
def lines (stream : Stream κ) : List Line × Option Error :=
  let (lines, error, _) := stream.consume (fun lines line => (line :: lines, none)) []
  (lines.reverse, error)

end Stream

end BoxTree
