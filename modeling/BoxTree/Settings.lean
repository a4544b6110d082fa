import BoxTree.Environment
import BoxTree.Event

namespace BoxTree

/-!
# Settings

What a process remembers between renderings.

* `Settings` — the environment, what has been found out from it, and what the user insists on.
* `Settings.insistOnSupport`, `Settings.forgetSupport`, … — the changes.
* `Settings.findSupport` — the colours of the terminal: insisted on, remembered or found out.
* `Settings.platform` — where the output is read.
* `Settings.encoding` — the encoding of a writer that nobody chose.
-/

/-- What a process remembers between renderings. -/
structure Settings where
  environment : Environment := {}
  /-- The support insisted on. -/
  supportOverride : Option Support := none
  /-- The support found out before. -/
  cachedSupport : Option Support := none
  /-- The platform insisted on. -/
  platformOverride : Option Platform := none

namespace Settings

/-! ### Changes -/

/-- Insists on a support. -/
def insistOnSupport (settings : Settings) (support : Support) : Settings :=
  { settings with supportOverride := some support }

/-- Insists on no support any more. -/
def dropSupport (settings : Settings) : Settings := { settings with supportOverride := none }

/-- Forgets what was found out, so that the environment is examined again. -/
def forgetSupport (settings : Settings) : Settings := { settings with cachedSupport := none }

/-- Insists on a platform. -/
def insistOnPlatform (settings : Settings) (platform : Platform) : Settings :=
  { settings with platformOverride := some platform }

/-- Insists on no platform any more. -/
def dropPlatform (settings : Settings) : Settings := { settings with platformOverride := none }

/-- Sets a variable of the environment. -/
def setVariable (settings : Settings) (name value : String) : Settings :=
  { settings with environment := settings.environment.set name value }

/-- Unsets a variable of the environment. -/
def unsetVariable (settings : Settings) (name : String) : Settings :=
  { settings with environment := settings.environment.unset name }

/-! ### Answers -/

/-- The colours of the terminal. The environment is examined only if nothing is insisted on and
    nothing was found out before; what is found is remembered. -/
def findSupport (settings : Settings) : Support × Settings × List Event :=
  match settings.supportOverride, settings.cachedSupport with
  | some support, _ => (support, settings, [])
  | none, some support => (support, settings, [])
  | none, none =>
    let support := settings.environment.support .standardOutput
    (support, { settings with cachedSupport := some support }, [.supportDetected support])

/-- Where the output is read. -/
def platform (settings : Settings) : Platform := settings.platformOverride.getD Platform.target

/-- The encoding for a platform. A terminal without colours gets plain text. -/
def encoding (settings : Settings) (platform : Platform) (colors : Bool) :
    Encoding × Settings × List Event :=
  match colors, platform with
  | false, _ => (.plain, settings, [])
  | true, .scriptConsole => (.scriptConsole, settings, [])
  | true, .terminal =>
    match settings.findSupport with
    | (.colorless, settings, events) => (.plain, settings, events)
    | (support, settings, events) => (.terminal support, settings, events)

end Settings

end BoxTree
