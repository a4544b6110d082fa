import BoxTree.Color.Named

namespace BoxTree

/-!
# Themes

* `Theme` — the colour of each part of a rendered tree.
* `Theme.Overrides` — the colours to be replaced.
* `Platform` — where the output is read, which has a theme that suits it.
-/

/-- The colour of each part of a rendered tree. -/
structure Theme where
  /-- The names of nodes. -/
  name : Color
  /-- Text of the source. -/
  source : Color
  /-- The lines of the boxes. -/
  tree : Color
  /-- The quotes around a text of several rows. -/
  quotes : Color
  /-- The mark where a row ends. -/
  rowEnd : Color
  /-- The colon after a name. -/
  colon : Color
  /-- What stands for the children of a collapsed node. -/
  ellipsis : Color
  deriving DecidableEq

/-- Where the output is read. -/
inductive Platform where
  | terminal
  /-- The console of a script host, which takes styles instead of escape sequences. -/
  | scriptConsole
  deriving DecidableEq

namespace Platform

/-- The number of a platform. -/
def code : Platform → Int
  | terminal => 1
  | scriptConsole => 2

/-- The platform of a number. -/
def ofCode? (code : Int) : Option Platform :=
  if code = 1 then some terminal else if code = 2 then some scriptConsole else none

/-- The name of a platform. -/
def name : Platform → String
  | terminal => "terminal"
  | scriptConsole => "script-console"

/-- The platform of a name, which must be written exactly so. -/
def ofName? (name : String) : Option Platform :=
  if name = terminal.name then some terminal
  else if name = scriptConsole.name then some scriptConsole
  else none

/-- What is reported of a name that no platform has. -/
def unknownName : String := "Matching variant not found"

/-- The platform this program runs on. -/
def target : Platform := terminal

/-- A platform is found again by its number. -/
theorem ofCode?_code (platform : Platform) : ofCode? platform.code = some platform := by
  cases platform <;> rfl

/-- A platform is found again by its name. -/
theorem ofName?_name (platform : Platform) : ofName? platform.name = some platform := by
  cases platform <;> decide

end Platform

namespace Theme

/-- The theme in which each part has its usual colour, drawn as `shade` says. -/
def usual (shade : ColorName → Color) : Theme where
  name := shade .brightCyan
  source := shade .darkYellow
  tree := shade .darkGray
  quotes := shade .lightGray
  rowEnd := shade .darkGray
  colon := shade .lightGray
  ellipsis := shade .darkGray

/-- The theme of a terminal, drawn with the terminal's own basic colours. -/
def terminal : Theme := usual ColorName.standard

/-- The theme of a script console. -/
def scriptConsole : Theme := usual ColorName.vivid

/-- The theme that suits a platform. -/
def ofPlatform : Platform → Theme
  | .terminal => terminal
  | .scriptConsole => scriptConsole

/-- The colours to be replaced. -/
structure Overrides where
  name : Option Color := none
  source : Option Color := none
  tree : Option Color := none
  quotes : Option Color := none
  rowEnd : Option Color := none
  colon : Option Color := none
  ellipsis : Option Color := none
  deriving DecidableEq

/-- The theme with the overrides in place of its own colours. -/
def override (theme : Theme) (overrides : Overrides) : Theme where
  name := overrides.name.getD theme.name
  source := overrides.source.getD theme.source
  tree := overrides.tree.getD theme.tree
  quotes := overrides.quotes.getD theme.quotes
  rowEnd := overrides.rowEnd.getD theme.rowEnd
  colon := overrides.colon.getD theme.colon
  ellipsis := overrides.ellipsis.getD theme.ellipsis

end Theme

end BoxTree
