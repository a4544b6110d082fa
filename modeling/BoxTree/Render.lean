import BoxTree.Line.Stream
import BoxTree.Settings

namespace BoxTree

/-!
# Rendering

* `Options` — what can be chosen.
* `render` — writes the tree under a cursor and hands it over, in one call or one call a line.
* `renderText` — the tree as plain text.
* `walk` — the lines of the tree, which the other two consume.
-/

/-- What can be chosen. -/
structure Options where
  /-- Write colours at all. -/
  colors : Bool := true
  /-- Hand over one line at a time. -/
  lineByLine : Bool := false
  filter : Filter := Filter.all
  /-- The theme, if not that of the platform. -/
  theme : Option Theme := none
  overrides : Theme.Overrides := {}
  /-- The platform, if not that of the settings. -/
  platform : Option Platform := none
  /-- Where a writer that nobody chose hands its text. -/
  surface : Surface := .standardOutput
  /-- The writer, if not one that suits the platform. -/
  writer : Option Writer := none

namespace Options

/-- The platform to render for. -/
def platformIn (options : Options) (settings : Settings) : Platform :=
  options.platform.getD settings.platform

/-- The theme to render with. -/
def themeFor (options : Options) (platform : Platform) : Theme :=
  (options.theme.getD (Theme.ofPlatform platform)).override options.overrides

/-- The writer chosen, or one that suits the platform. -/
def writerFor (options : Options) (settings : Settings) (platform : Platform) :
    Writer × Settings × List Event :=
  match options.writer with
  | some writer => (writer, settings, [])
  | none =>
    let (encoding, settings, events) := settings.encoding platform options.colors
    ({ encoding, surface := options.surface }, settings, events)

end Options

/-- A rendering on its way. -/
structure Progress where
  writer : Writer
  /-- How many lines have been written. -/
  lines : Nat := 0
  /-- What has been logged, the first event first. -/
  events : List Event := []
  deriving DecidableEq

namespace Progress

/-- Hands the text over, which may fail. -/
def flush (progress : Progress) : Progress × Option Error :=
  let events := progress.events ++ [progress.writer.flushed]
  match progress.writer.flush with
  | .ok writer => ({ progress with writer, events }, none)
  | .error error => ({ progress with events }, some error)

/-- Writes a line after the ones before it. -/
def addLine (theme : Theme) (progress : Progress) (line : Line) : Progress :=
  let writer := if progress.lines = 0 then progress.writer else progress.writer.push "\n"
  { progress with writer := writer.pushLine theme line, lines := progress.lines + 1 }

/-- Writes a line on the surface's own background, hands it over and starts afresh. -/
def flushEach (theme : Theme) (progress : Progress) (line : Line) : Progress × Option Error :=
  let writer := (progress.writer.release false true).pushLine theme line
  match flush { progress with writer } with
  | (progress, some error) => (progress, some error)
  | (progress, none) =>
    ({ progress with writer := progress.writer.clear, lines := progress.lines + 1 }, none)

end Progress

variable {κ : Type} [Cursor κ]

/-- Writes every line of a walk, with line breaks between them. -/
def writeAll (theme : Theme) (progress : Progress) (stream : Stream κ) :
    Progress × Option Error × Stream κ :=
  stream.consume (fun progress line => (progress.addLine theme line, none)) progress

/-- Writes every line of a walk and hands each one over. -/
def writeEach (theme : Theme) (progress : Progress) (stream : Stream κ) :
    Progress × Option Error × Stream κ :=
  stream.consume (Progress.flushEach theme) progress

/-- The lines of the tree under a cursor. -/
def walk (settings : Settings) (options : Options) (source : String) (cursor : κ) :
    Stream κ :=
  let theme := options.themeFor (options.platformIn settings)
  Stream.start cursor source theme options.filter

/-- What is left after a rendering. -/
structure Rendered (κ : Type) where
  /-- What stopped it, if anything did. -/
  error : Option Error
  /-- The cursor, back where it was. -/
  cursor : κ
  /-- Where the filter was asked, the latest first. -/
  asked : List κ
  writer : Writer
  settings : Settings
  /-- What was logged, the first event first. -/
  events : List Event

/-- Writes the tree under a cursor and hands it over. In one call nothing is handed over if the
    walk fails; line by line, what came before the failure has been. -/
def render (settings : Settings) (options : Options) (source : String) (cursor : κ) :
    Rendered κ :=
  let platform := options.platformIn settings
  let theme := options.themeFor platform
  let stream := walk settings options source cursor
  let (writer, settings, detected) := options.writerFor settings platform
  let started := Event.renderStarted platform options.colors options.lineByLine
    (Cursor.label cursor).name
  let progress : Progress := { writer, events := detected ++ [started] }
  let (progress, error, stream) :=
    if options.lineByLine then writeEach theme progress stream
    else
      match writeAll theme progress stream with
      | (progress, some error, stream) => (progress, some error, stream)
      | (progress, none, stream) =>
        let (progress, error) := progress.flush
        (progress, error, stream)
  let finished := if error.isNone then [Event.renderFinished progress.lines] else []
  { error, cursor := stream.finish, asked := stream.asked, writer := progress.writer, settings
    events := progress.events ++ finished }

/-- The tree under a cursor as plain text, with the cursor back where it was and the places where
    the filter was asked, the latest first. -/
def renderText (settings : Settings) (options : Options) (source : String) (cursor : κ) :
    Except Error String × κ × List κ :=
  let theme := options.themeFor (options.platformIn settings)
  let (progress, error, stream) :=
    writeAll theme { writer := { encoding := .plain } } (walk settings options source cursor)
  let text := match error with
    | some error => .error error
    | none => .ok progress.writer.text
  (text, stream.finish, stream.asked)

end BoxTree
