import BoxTree.SupportHistory

namespace BoxTree

/-!
# Where the support is kept

A process keeps two bytes, one for the support insisted on and one for the support found out. A byte holds
the code of a support or a mark that stands for none.

* `Slot` — a byte, and how it is read and written.
* `Process` — the environment of a process and its two bytes.
* `Process.find`, `Process.run` — the support by these bytes, and what becomes of them.
* `Process.settings` — the settings that the bytes stand for.
-/

/-- A byte that holds a support or none. -/
structure Slot where
  byte : Int8
  deriving DecidableEq

namespace Slot

/-- The byte that holds none. -/
def blank : Slot := ⟨-1⟩

/-- The byte that holds a support. -/
def holding (support : Support) : Slot := ⟨Int8.ofInt support.code⟩

/-- What a byte holds. -/
def read? (slot : Slot) : Option Support := Support.ofCode? slot.byte.toInt

@[simp] theorem read?_blank : blank.read? = none := rfl

/-- The codes fit a byte, so a support that is written is read back. -/
@[simp] theorem read?_holding (support : Support) : (holding support).read? = some support := by
  have hcode : (Int8.ofInt support.code).toInt = support.code := by cases support <;> rfl
  rw [read?, holding, hcode, Support.ofCode?_code]

end Slot

/-- A process and what it keeps of the support. -/
structure Process where
  environment : Environment := {}
  insistence : Slot := .blank
  finding : Slot := .blank

namespace Process

/-- The support by the bytes: the one insisted on, the one found out, or what the environment tells, which
    is kept. -/
def find (process : Process) : Support × Process × List Event :=
  match process.insistence.read? with
  | some support => (support, process, [])
  | none =>
    match process.finding.read? with
    | some support => (support, process, [])
    | none =>
      let support := process.environment.support .standardOutput
      (support, { process with finding := .holding support }, [.supportDetected support])

/-- The process after an action. -/
def after (process : Process) : SupportAction → Process
  | .insist support => { process with insistence := .holding support }
  | .drop => { process with insistence := .blank }
  | .forget => { process with finding := .blank }
  | .change edit => { process with environment := edit process.environment }
  | .find => process.find.2.1

/-- The process after all actions, one after the other. -/
def run (process : Process) (actions : List SupportAction) : Process := actions.foldl after process

/-- The settings that the bytes stand for. -/
def settings (process : Process) : Settings where
  environment := process.environment
  supportOverride := process.insistence.read?
  cachedSupport := process.finding.read?

end Process

end BoxTree
