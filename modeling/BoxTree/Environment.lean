import BoxTree.BuildService
import BoxTree.Color.Support

namespace BoxTree

/-!
# The environment

* `Environment` — the variables of a process, which of its streams are terminals, the system it runs on.
* `Environment.refusesColor`, `Environment.inBuildService` — what some variables mean.
* `Environment.supportBySystem?` — the colours that a system makes known by itself.
* `Environment.support` — the colours that can be shown, as far as the environment tells.

How a build service is known is not for this library to say: an environment brings the test of its
variables along, and whatever is proved of environments holds for every test.
-/

/-- The streams a process writes to. -/
inductive OutputStream where
  | standardOutput
  | standardError
  deriving DecidableEq

/-- The system that a program was built for. -/
inductive OperatingSystem where
  | linux
  | macos
  | windows
  | other
  deriving DecidableEq

/-- The variables of a process, which of its streams are terminals, and the system it runs on. -/
structure Environment where
  /-- Names and values; the first entry of a name counts. -/
  entries : List (String × String) := []
  terminals : List OutputStream := []
  system : OperatingSystem := .linux
  /-- Whether variables, given by their values, are those of a build service. -/
  namesBuildService : (String → Option String) → Bool := BuildService.isNamed

namespace Environment

/-- The value of a variable that is set. -/
def get? (env : Environment) (name : String) : Option String := env.entries.lookup name

/-- The environment without a variable. -/
def unset (env : Environment) (name : String) : Environment :=
  { env with entries := env.entries.filter fun entry => entry.1 ≠ name }

/-- The environment with a variable set to a value. -/
def set (env : Environment) (name value : String) : Environment :=
  { env with entries := (name, value) :: (env.unset name).entries }

/-- Whether a variable is set. -/
def has (env : Environment) (name : String) : Bool := (env.get? name).isSome

/-- Whether a variable is set to this value. -/
def holds (env : Environment) (name value : String) : Bool := env.get? name = some value

/-- Whether a variable is set to something other than `0`. -/
def isOn (env : Environment) (name : String) : Bool :=
  match env.get? name with
  | some value => value ≠ "0"
  | none => false

/-- Whether a stream is a terminal. -/
def isTerminal (env : Environment) (stream : OutputStream) : Bool := env.terminals.contains stream

/-! ### Kinds of terminals -/

/-- Whether a text ends in another one. -/
def endsIn (part text : String) : Bool := part.toList.isSuffixOf text.toList

/-- Whether a text starts with another one. -/
def startsWith (part text : String) : Bool := part.toList.isPrefixOf text.toList

/-- Whether a list occurs in another one without a break. -/
def occursIn (part : List Char) : List Char → Bool
  | [] => part.isEmpty
  | c :: cs => part.isPrefixOf (c :: cs) || occursIn part cs

/-- Whether a text occurs in another one. -/
def holdsText (part text : String) : Bool := occursIn part.toList text.toList

/-- A kind of terminal with a palette of 256 says so at the end of its name. -/
def isPaletteTerminal (kind : String) : Bool := endsIn "256" kind || endsIn "256color" kind

/-- The families of terminals that show colours, by how their names start. -/
def colorFamilies : List String := ["screen", "xterm", "vt100", "vt220", "rxvt"]

/-- What else in a name speaks for colours. -/
def colorMarks : List String := ["color", "ansi", "cygwin", "linux"]

/-- A kind of terminal that shows colours. -/
def isColorTerminal (kind : String) : Bool :=
  colorFamilies.any (startsWith · kind) || colorMarks.any (holdsText · kind)

/-- Whether the kind of terminal has a property. -/
def terminalKind (env : Environment) (property : String → Bool) : Bool :=
  match env.get? "TERM" with
  | some kind => property kind
  | none => false

/-! ### Support -/

/-- The user asks for no colours. -/
def refusesColor (env : Environment) : Bool := env.isOn "NO_COLOR"

/-- Whether the process runs in a build service, where colours are shown. -/
def inBuildService (env : Environment) : Bool := env.namesBuildService env.get?

/-- The colours that a system makes known by itself. Elsewhere the kind of terminal decides. -/
def supportBySystem? (env : Environment) : Option Support :=
  match env.system with
  | .macos =>
    if env.holds "TERM_PROGRAM" "Apple_Terminal" && env.terminalKind isPaletteTerminal then
      some .palette
    else if env.holds "TERM_PROGRAM" "iTerm.app" || env.holds "COLORTERM" "truecolor" then
      some .truecolor
    else none
  | .linux => if env.holds "COLORTERM" "truecolor" then some .truecolor else none
  | .windows => some .truecolor
  | .other => none

/-- The colours that the kind of terminal speaks for, and what else may speak for colours. -/
def supportByKind (env : Environment) : Support :=
  if env.terminalKind isPaletteTerminal then .palette
  else if env.has "COLORTERM" || env.terminalKind isColorTerminal || env.isOn "CLICOLOR" ||
      env.inBuildService then .truecolor
  else .colorless

/-- The colours that can be shown on a stream, as far as the environment tells. What rules colours
    out comes first, then what the system makes known. -/
def support (env : Environment) (stream : OutputStream) : Support :=
  if env.refusesColor || env.holds "TERM" "dumb" ||
      !(env.isTerminal stream || env.isOn "IGNORE_IS_TERMINAL") then .colorless
  else env.supportBySystem?.getD env.supportByKind

/-- All variables that matter, those of build services apart. -/
def consulted : List String :=
  ["NO_COLOR", "TERM", "TERM_PROGRAM", "IGNORE_IS_TERMINAL", "COLORTERM", "CLICOLOR"]

end Environment

end BoxTree
