namespace BoxTree

/-!
# What can go wrong

* `Error` — one constructor per cause, holding what the report needs.
* `Error.message`, `Error.code?`, `Error.help?` — the report: a sentence, a stable code and a
  hint on what to do instead.
-/

/-- The ways in which a request can fail. -/
inductive Error where
  /-- A basic colour was asked for by an index above 15. -/
  | basicIndex (index : UInt8)
  /-- The bytes `start` to `stop` are no slice of a text of `length` bytes. -/
  | sourceRange (start stop length : Nat)
  /-- A cursor could not climb back from the node of this name. -/
  | strayCursor (node : String)
  /-- The steps of a builder do not describe one tree. -/
  | malformedTree (reason : String)
  /-- No node has this number. -/
  | unknownNode (id : Nat)
  /-- A surface takes no more calls. -/
  | surfaceFull
  deriving DecidableEq

namespace Error

/-- The sentence that reports the error. -/
def message : Error → String
  | basicIndex index =>
    "🎨 4-bit color index " ++ toString index.toNat ++ " is out of range (expected 0..=15)"
  | sourceRange start stop length =>
    "📄 Source range " ++ toString start ++ ".." ++ toString stop ++
      " is out of bounds (source length is " ++ toString length ++ ")"
  | strayCursor node => "🧭 Tree cursor could not navigate back from '" ++ node ++ "'"
  | malformedTree reason => "🌳 Malformed tree: " ++ reason
  | unknownNode id => "🔍 Node " ++ toString id ++ " does not exist in the arena"
  | surfaceFull => "surface is full"

/-- A code that stays the same when the wording changes. A full surface has none. -/
def code? : Error → Option String
  | basicIndex _ => some "r3bl_tree_viz::color::invalid_ansi16_index"
  | sourceRange .. => some "r3bl_tree_viz::source::range_out_of_bounds"
  | strayCursor _ => some "r3bl_tree_viz::cursor::contract_violation"
  | malformedTree _ => some "r3bl_tree_viz::arena::malformed_tree"
  | unknownNode _ => some "r3bl_tree_viz::arena::unknown_node"
  | surfaceFull => none

/-- What the caller can do instead, where there is something to say. -/
def help? : Error → Option String
  | basicIndex _ => some "Use `Color::ansi256()` for palette indices above 15."
  | sourceRange .. =>
    some "Byte offsets must lie inside the source and on UTF-8 char boundaries."
  | strayCursor _ =>
    some ("A cursor must return to a node with `parent()` after visiting its children, " ++
      "and must be able to revisit siblings it has already reported.")
  | malformedTree _ | unknownNode _ | surfaceFull => none

end Error

end BoxTree
