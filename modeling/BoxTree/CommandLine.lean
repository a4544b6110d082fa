import BoxTree.Render
import BoxTree.Syntax.Sample

namespace BoxTree

/-!
# The command line

The program renders the sample document, as its arguments say.

* `Arguments` — what the arguments ask for.
* `Request.parse` — reads the arguments from the left; the first one that is wrong decides.
* `Request.perform` — what is printed, and how the program ends.
-/

/-- What the arguments ask for. -/
structure Arguments where
  colors : Bool := true
  lineByLine : Bool := false
  platform : Option Platform := none
  rules : NameRules := {}
  logLevel : Option LogLevel := none
  deriving DecidableEq

/-- The options there are. -/
inductive OptionName where
  | noColors
  | lineByLine
  | platform
  | hide
  | collapse
  | logLevel
  | version
  | help
  deriving DecidableEq

namespace OptionName

/-- All options. -/
def all : List OptionName :=
  [noColors, lineByLine, platform, hide, collapse, logLevel, version, help]

/-- How an option is written after two dashes. -/
def text : OptionName → String
  | noColors => "no-colors"
  | lineByLine => "line-by-line"
  | platform => "platform"
  | hide => "hide"
  | collapse => "collapse"
  | logLevel => "log-level"
  | version => "version"
  | help => "help"

/-- The option written so. -/
def ofText? (text : String) : Option OptionName := all.find? fun option => option.text = text

/-- What an option does. -/
def purpose : OptionName → String
  | noColors => "Print without color directives."
  | lineByLine => "Flush once per line instead of once per tree."
  | platform => "Encode colors for this platform instead of detecting it."
  | hide => "Leave out nodes with this name."
  | collapse => "Show nodes with this name on one line, without their children."
  | logLevel => "Log to stderr at this level (off, error, warn, info, debug, trace)."
  | version => "Print version"
  | help => "Print help"

end OptionName

/-- What can be wrong with the arguments. -/
inductive UsageError where
  /-- No option is written so. -/
  | unknownOption (argument : String)
  /-- An argument that belongs to no option. -/
  | unexpectedArgument (argument : String)
  /-- An option that takes no value has one. -/
  | unexpectedValue (option : OptionName) (value : String)
  /-- An option that takes a value has none. -/
  | missingValue (option : OptionName)
  /-- An option does not take this value. -/
  | invalidValue (option : OptionName) (value : String)
  /-- An option that can be given once is there again. -/
  | repeatedOption (option : OptionName)
  deriving DecidableEq

namespace UsageError

/-- The sentence that reports the error. -/
def message : UsageError → String
  | unknownOption argument | unexpectedArgument argument =>
    "error: unexpected argument '" ++ argument ++ "' found"
  | unexpectedValue option value =>
    "error: unexpected value '" ++ value ++ "' for '--" ++ option.text ++ "' found; " ++
      "no more were expected"
  | missingValue option =>
    "error: a value is required for '--" ++ option.text ++ "' but none was supplied"
  | invalidValue option value =>
    "error: invalid value '" ++ value ++ "' for '--" ++ option.text ++ "'"
  | repeatedOption option =>
    "error: the argument '--" ++ option.text ++ "' cannot be used multiple times"

end UsageError

/-! ### Values -/

namespace LogLevel

/-- The number that decimal digits stand for. -/
def digitsValue? : Nat → List Char → Option Nat
  | value, [] => some value
  | value, c :: cs => if c.isDigit then digitsValue? (10 * value + (c.toNat - '0'.toNat)) cs else none

/-- The number that a text stands for; it may have a plus sign. -/
def number? (text : String) : Option Nat :=
  match text.toList with
  | [] | ['+'] => none
  | '+' :: digits => digitsValue? 0 digits
  | digits => digitsValue? 0 digits

/-- The level of a number, a name in any case, or nothing at all, which stands for errors. -/
def ofText? (text : String) : Option LogLevel :=
  match number? text with
  | some value => all.find? fun level => level.rank = value
  | none =>
    if text.isEmpty then some error
    else
      let lower := text.toList.map Char.toLower
      all.find? fun level => level.name.toList.map Char.toLower = lower

end LogLevel

namespace Arguments

/-- Takes an option without a value. -/
def turnOn (found : Arguments) (option : OptionName) : Except UsageError Arguments :=
  match option with
  | .noColors =>
    if found.colors then .ok { found with colors := false } else .error (.repeatedOption option)
  | .lineByLine =>
    if found.lineByLine then .error (.repeatedOption option)
    else .ok { found with lineByLine := true }
  | _ => .error (.missingValue option)

/-- Takes an option with its value. -/
def assign (found : Arguments) (option : OptionName) (value : String) :
    Except UsageError Arguments :=
  match option with
  | .hide => .ok { found with rules := found.rules.hide [value] }
  | .collapse => .ok { found with rules := found.rules.collapse [value] }
  | .platform =>
    match found.platform, Platform.ofName? value with
    | some _, _ => .error (.repeatedOption option)
    | none, none => .error (.invalidValue option value)
    | none, platform => .ok { found with platform }
  | .logLevel =>
    match found.logLevel, LogLevel.ofText? value with
    | some _, _ => .error (.repeatedOption option)
    | none, none => .error (.invalidValue option value)
    | none, logLevel => .ok { found with logLevel }
  | .noColors | .lineByLine | .version | .help => .error (.unexpectedValue option value)

end Arguments

/-! ### Arguments -/

/-- What the program is to do. -/
inductive Request where
  | draw (arguments : Arguments)
  | version
  | help
  deriving DecidableEq

/-- One argument, by its shape. -/
inductive Argument where
  /-- Two dashes, a name, and perhaps a value after an equals sign. -/
  | long (name : String) (value : Option String)
  /-- One dash and letters. -/
  | short (letters : List Char)
  /-- Two dashes alone. -/
  | separator
  /-- Anything else. -/
  | operand
  deriving DecidableEq

namespace Argument

/-- The text before the first equals sign, and the text behind it. -/
def splitValue : List Char → List Char × Option (List Char)
  | [] => ([], none)
  | '=' :: cs => ([], some cs)
  | c :: cs =>
    let (name, value) := splitValue cs
    (c :: name, value)

/-- The shape of an argument. -/
def ofText (text : String) : Argument :=
  match text.toList with
  | ['-', '-'] => separator
  | '-' :: '-' :: rest =>
    let (name, value) := splitValue rest
    long (String.ofList name) (value.map String.ofList)
  | '-' :: c :: rest => short (c :: rest)
  | _ => operand

/-- An argument that can be the value of the option before it. -/
def isValue (text : String) : Bool := ofText text = operand

end Argument

namespace Request

/-- Options of one letter: both end the program at once. -/
def ofLetter? : Char → Option Request
  | 'V' => some version
  | 'h' => some help
  | _ => none

/-- Reads the arguments from the left. -/
def parseFrom (found : Arguments) : List String → Except UsageError Request
  | [] => .ok (draw found)
  | argument :: rest =>
    match Argument.ofText argument with
    | .operand => .error (.unexpectedArgument argument)
    | .separator =>
      match rest with
      | [] => .ok (draw found)
      | extra :: _ => .error (.unexpectedArgument extra)
    | .short letters =>
      match letters.head?.bind ofLetter? with
      | some request => .ok request
      | none => .error (.unknownOption argument)
    | .long name value =>
      match OptionName.ofText? name, value with
      | none, _ => .error (.unknownOption argument)
      | some .version, none => .ok version
      | some .help, none => .ok help
      | some .noColors, none =>
        match found.turnOn .noColors with
        | .ok found => parseFrom found rest
        | .error error => .error error
      | some .lineByLine, none =>
        match found.turnOn .lineByLine with
        | .ok found => parseFrom found rest
        | .error error => .error error
      | some option, some value =>
        match found.assign option value with
        | .ok found => parseFrom found rest
        | .error error => .error error
      | some option, none =>
        match rest with
        | [] => .error (.missingValue option)
        | value :: rest =>
          if Argument.isValue value then
            match found.assign option value with
            | .ok found => parseFrom found rest
            | .error error => .error error
          else .error (.missingValue option)

/-- What the arguments ask for. -/
def parse (arguments : List String) : Except UsageError Request := parseFrom {} arguments

end Request

/-! ### The program -/

/-- How the program ends. -/
structure Ending where
  exitCode : UInt8 := 0
  /-- What is printed on standard output. -/
  output : String := ""
  /-- The lines printed on standard error. -/
  log : List String := []
  deriving DecidableEq

/-- The name and number of this version. -/
def versionText : String := "r3bl_tree_viz 0.1.0"

/-- What the program does and which options it has. -/
def helpText : String :=
  "🌳 Render a syntax tree as box-drawn, colorized text\n\nOptions:\n" ++
    String.join (OptionName.all.map fun option =>
      "      --" ++ option.text ++ "\n          " ++ option.purpose ++ "\n")

namespace Request

/-- Renders the sample document. -/
def renderSample (env : Environment) (arguments : Arguments) : Ending :=
  let level := arguments.logLevel.getD .off
  let options : Options :=
    { colors := arguments.colors, lineByLine := arguments.lineByLine
      filter := arguments.rules.filter, platform := arguments.platform }
  match Document.sample with
  | .error error => { exitCode := 1, log := [error.message] }
  | .ok document =>
    let rendered := render { environment := env } options document.text document.place
    let log := (rendered.events.filter fun event => event.level.rank ≤ level.rank).map Event.line
    let output := rendered.writer.surface.printed
    match rendered.error with
    | none => { output, log }
    | some error => { exitCode := 1, output, log := log ++ [error.message] }

/-- Does what is asked for. -/
def perform (env : Environment) : Request → Ending
  | .draw arguments => renderSample env arguments
  | .version => { output := versionText ++ "\n" }
  | .help => { output := helpText }

end Request

/-- The program, from its environment and arguments to its end. -/
def runCommandLine (env : Environment) (arguments : List String) : Ending :=
  match Request.parse arguments with
  | .ok request => request.perform env
  | .error error => { exitCode := 2, log := [error.message] }

end BoxTree
