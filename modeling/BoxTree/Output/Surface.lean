import BoxTree.Console.Format
import BoxTree.Error

namespace BoxTree

/-!
# Surfaces

What a writer hands its text to.

* `Call` — one text with the styles of its placeholders. Without styles the text is literal, with
  styles it is a format string.
* `Surface` — standard output, or a recorder; either may take only so many calls.
* `Surface.log` — one more call.
* `Surface.printed` — what standard output shows of the calls.
-/

/-- One text with the styles of its placeholders. -/
structure Call where
  text : String
  styles : List String := []
  deriving DecidableEq

namespace Call

/-- The line that standard output shows of a call. It has no way to apply styles, so placeholders
    are dropped. -/
def printed (call : Call) : String :=
  (if call.styles.isEmpty then call.text else Console.shown call.text) ++ "\n"

end Call

/-- What becomes of the calls of a surface. -/
inductive SurfaceKind where
  /-- They are printed. -/
  | standardOutput
  /-- They are kept. -/
  | recorder
  deriving DecidableEq

/-- A surface and the calls it has taken. -/
structure Surface where
  kind : SurfaceKind
  /-- How many more calls it takes; `none` for any number. -/
  room : Option Nat := none
  /-- The calls taken, the first one first. -/
  calls : List Call := []
  deriving DecidableEq

namespace Surface

/-- Standard output. -/
def standardOutput : Surface := { kind := .standardOutput }

/-- A recorder, which may have room for only so many calls. -/
def recorder (room : Option Nat := none) : Surface := { kind := .recorder, room }

/-- Takes a call, as long as there is room. -/
def log (surface : Surface) (call : Call) : Except Error Surface :=
  match surface.room with
  | some 0 => .error .surfaceFull
  | room =>
    .ok { surface with room := room.map (· - 1), calls := surface.calls ++ [call] }

/-- What has been printed. -/
def printed (surface : Surface) : String :=
  match surface.kind with
  | .standardOutput => String.join (surface.calls.map Call.printed)
  | .recorder => ""

/-- What has been recorded. -/
def recorded (surface : Surface) : List Call :=
  match surface.kind with
  | .standardOutput => []
  | .recorder => surface.calls

end Surface

/-- The texts of calls, each on lines of its own. -/
def textOfCalls (calls : List Call) : String :=
  String.intercalate "\n" (calls.map Call.text)

end BoxTree
