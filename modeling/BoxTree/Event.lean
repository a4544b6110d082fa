import BoxTree.Output.Writer

namespace BoxTree

/-!
# Events

What is logged while a tree is rendered.

* `Event` — one constructor per kind of event.
* `Event.level`, `Event.message`, `Event.fields` — how it is reported.
* `Writer.flushed`, `Writer.eventsOf` — the events of a writer.
-/

/-- How much a reader of the log must want to know to be shown an event. -/
inductive LogLevel where
  | off
  | error
  | warn
  | info
  | debug
  | trace
  deriving DecidableEq

namespace LogLevel

/-- The place of a level, from nothing to everything. -/
def rank : LogLevel → Nat
  | off => 0
  | error => 1
  | warn => 2
  | info => 3
  | debug => 4
  | trace => 5

/-- The name of a level. -/
def name : LogLevel → String
  | off => "OFF"
  | error => "ERROR"
  | warn => "WARN"
  | info => "INFO"
  | debug => "DEBUG"
  | trace => "TRACE"

/-- All levels. -/
def all : List LogLevel := [off, error, warn, info, debug, trace]

end LogLevel

/-- A value that comes with an event. -/
inductive EventValue where
  | text (value : String)
  | flag (value : Bool)
  | number (value : Nat)
  deriving DecidableEq

/-- What is logged. -/
inductive Event where
  /-- The environment was examined. -/
  | supportDetected (support : Support)
  /-- A tree is about to be rendered. -/
  | renderStarted (platform : Platform) (colors lineByLine : Bool) (root : String)
  /-- A writer hands its text over. -/
  | flushed (encoding : Encoding) (bytes styles : Nat)
  /-- A tree has been rendered. -/
  | renderFinished (lines : Nat)
  deriving DecidableEq

/-- A kind of terminal in the words of the log. -/
def Support.title : Support → String
  | .truecolor => "Truecolor"
  | .palette => "Ansi256"
  | .grayscale => "Grayscale"
  | .colorless => "NoColor"

/-- A platform in the words of the log. -/
def Platform.title : Platform → String
  | .terminal => "Terminal"
  | .scriptConsole => "ScriptConsole"

/-- An encoding in the words of the log. -/
def Encoding.title : Encoding → String
  | .plain => "Plain"
  | .terminal support => "Terminal(" ++ support.title ++ ")"
  | .scriptConsole => "ScriptConsole"

namespace Event

/-- The level of an event. -/
def level : Event → LogLevel
  | flushed .. => .trace
  | supportDetected _ | renderStarted .. | renderFinished _ => .debug

/-- The sentence that reports an event. -/
def message : Event → String
  | supportDetected _ => "Detected terminal color support"
  | renderStarted .. => "Rendering tree"
  | flushed .. => "Flushing writer"
  | renderFinished _ => "Rendered tree"

/-- What comes with an event. -/
def fields : Event → List (String × EventValue)
  | supportDetected support => [("detected", .text support.title)]
  | renderStarted platform colors lineByLine root =>
    [("platform", .text platform.title), ("colors", .flag colors),
     ("line_by_line", .flag lineByLine), ("root", .text root)]
  | flushed encoding bytes styles =>
    [("encoding", .text encoding.title), ("bytes", .number bytes), ("styles", .number styles)]
  | renderFinished lines => [("line_count", .number lines)]

/-- An event on one line. -/
def line (event : Event) : String :=
  let field : String × EventValue → String
    | (name, .text value) => " " ++ name ++ "=" ++ value
    | (name, .flag value) => " " ++ name ++ "=" ++ toString value
    | (name, .number value) => " " ++ name ++ "=" ++ toString value
  event.level.name ++ " " ++ event.message ++ String.join (event.fields.map field)

end Event

namespace Writer

/-- The event of handing the text over. -/
def flushed (writer : Writer) : Event :=
  .flushed writer.encoding writer.text.utf8ByteSize writer.styles.length

/-- The events of an action, whether it fails or not. -/
def eventsOf (writer : Writer) : Action → List Event
  | .flush => [writer.flushed]
  | _ => []

end Writer

end BoxTree
