import BoxTree.Settings

namespace BoxTree

/-!
# What happens to the support

* `SupportAction` — what is done to the settings as far as the support goes.
* `Settings.run` — the settings after many actions.
* `Stands` — an action that nothing done since revokes.
* `Insisted`, `FoundAt` — what a history of actions says of the support insisted on and of the one found out.
* `Answers` — the support that is due to whoever asks for it.
-/

/-- What is done to the settings as far as the support goes. -/
inductive SupportAction where
  /-- A support is insisted on. -/
  | insist (support : Support)
  /-- None is insisted on any more. -/
  | drop
  /-- What was found out is forgotten. -/
  | forget
  /-- The environment changes, as when a variable is set. -/
  | change (edit : Environment → Environment)
  /-- The support is asked for. -/
  | find

namespace SupportAction

/-- A variable is set. -/
def set (name value : String) : SupportAction := .change fun environment => environment.set name value

/-- A variable is unset. -/
def unset (name : String) : SupportAction := .change fun environment => environment.unset name

/-- Whether an action ends what was insisted on before. -/
def endsInsistence : SupportAction → Bool
  | insist _ => true
  | drop => true
  | _ => false

/-- Whether an action ends what was found out before. -/
def endsFinding : SupportAction → Bool
  | forget => true
  | _ => false

/-- The environment after an action. -/
def environment (before : Environment) : SupportAction → Environment
  | change edit => edit before
  | _ => before

end SupportAction

namespace Settings

/-- The settings after an action. -/
def after (settings : Settings) : SupportAction → Settings
  | .insist support => settings.insistOnSupport support
  | .drop => settings.dropSupport
  | .forget => settings.forgetSupport
  | .change edit => { settings with environment := edit settings.environment }
  | .find => settings.findSupport.2.1

/-- Setting a variable changes the environment of the settings, and nothing else. -/
theorem after_set (settings : Settings) (name value : String) :
    settings.after (.set name value) = settings.setVariable name value := rfl

/-- Unsetting a variable changes the environment of the settings, and nothing else. -/
theorem after_unset (settings : Settings) (name : String) :
    settings.after (.unset name) = settings.unsetVariable name := rfl

/-- The settings after all actions, one after the other. -/
def run (settings : Settings) (actions : List SupportAction) : Settings := actions.foldl after settings

end Settings

/-! ### Histories -/

/-- The environment after all actions. -/
def environmentAfter (start : Environment) (history : List SupportAction) : Environment :=
  history.foldl SupportAction.environment start

/-- An action was done when those in `earlier` had been done, and nothing done since revokes it. -/
def Stands (revokes : SupportAction → Bool) (history earlier : List SupportAction)
    (action : SupportAction) : Prop :=
  ∃ later, history = earlier ++ action :: later ∧ ∀ other ∈ later, revokes other = false

/-- The latest insistence was on this support, and it was not dropped since. -/
def Insisted (history : List SupportAction) (support : Support) : Prop :=
  ∃ earlier, Stands SupportAction.endsInsistence history earlier (.insist support)

/-- Nothing is insisted on. -/
def Free (history : List SupportAction) : Prop := ∀ support, ¬Insisted history support

/-- What was found out was found at some moment, when what is in `moment` had been done. -/
structure FoundAt (history moment : List SupportAction) : Prop where
  /-- The support was asked for at that moment, and what was found was not forgotten since. -/
  asked : Stands SupportAction.endsFinding history moment .find
  /-- Nothing was insisted on then. -/
  free : Free moment
  /-- Since the last time it was forgotten, or ever, it had not been asked for with nothing insisted on. -/
  first : ∀ earlier, Stands SupportAction.endsFinding moment earlier .find → ¬Free earlier

/-- The support that is due to whoever asks for it after a history: the one insisted on, if there is one,
    and otherwise what the environment told at the moment of finding, which may be this one. -/
inductive Answers (start : Environment) (history : List SupportAction) : Support → Prop
  | insisted {support : Support} (insisted : Insisted history support) : Answers start history support
  | found {moment : List SupportAction} (free : Free history)
      (found : FoundAt (history ++ [.find]) moment) :
      Answers start history ((environmentAfter start moment).support .standardOutput)

end BoxTree
