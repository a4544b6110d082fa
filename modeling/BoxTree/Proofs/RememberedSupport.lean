import BoxTree.Process
import Mathlib

namespace BoxTree

/-!
# What is remembered of the support

Two values are kept of all that was done: the support insisted on and the support found out. They tell as
much as the whole history does. And they are kept in two bytes, which tell as much as the two values.

* `stands_concat` — what stands after one more action.
* `insisted_concat`, `foundAt_concat` — hence what is insisted on, and when the support was found out.
* `exists_foundAt` — whoever asked with nothing insisted on was preceded by a first one.
* `Recalls` — the settings keep what a history says.
* `Recalls.after`, `recalls_run` — each action keeps it so, and so all do.
* `Process.settings_run`, `Process.findSupport_settings` — the bytes stand for the settings throughout.
* `support_follows_history` — hence the answer to whoever asks.
-/

/-! ### Histories -/

section Histories

variable {revokes : SupportAction → Bool} {history earlier moment : List SupportAction}
  {action last : SupportAction} {support : Support}

/-- **What stands after one more action** is that action, and what stood before unless it is revoked. -/
theorem stands_concat :
    Stands revokes (history ++ [last]) earlier action ↔
      earlier = history ∧ action = last ∨ revokes last = false ∧ Stands revokes history earlier action := by
  constructor
  · rintro ⟨later, hsplit, hstands⟩
    obtain rfl | ⟨rest, other, rfl⟩ := List.eq_nil_or_concat later
    · obtain ⟨rfl, hlast⟩ := List.append_inj' hsplit rfl
      exact .inl ⟨rfl, (List.singleton_inj.mp hlast).symm⟩
    · rw [List.concat_eq_append] at hsplit hstands
      obtain ⟨rfl, hlast⟩ := List.append_inj' (hsplit.trans (List.append_assoc _ (_ :: _) _).symm) rfl
      obtain rfl := List.singleton_inj.mp hlast
      exact .inr ⟨hstands last (by simp), rest, rfl, fun other hother => hstands other (by simp [hother])⟩
  · rintro (⟨rfl, rfl⟩ | ⟨hkept, later, rfl, hstands⟩)
    · exact ⟨[], rfl, by simp⟩
    · refine ⟨later ++ [last], by simp, ?_⟩
      rw [List.forall_mem_append, List.forall_mem_singleton]
      exact ⟨hstands, hkept⟩

/-- Nothing stands before anything was done. -/
theorem not_stands_nil : ¬Stands revokes [] earlier action := by
  rintro ⟨later, hsplit, -⟩
  exact List.append_ne_nil_of_right_ne_nil _ (List.cons_ne_nil _ _) hsplit.symm

/-- What stood when an action was done that stands still stands, unless that action revokes it. -/
theorem Stands.trans {between : List SupportAction} {other : SupportAction}
    (h : Stands revokes history between other) (kept : revokes other = false)
    (h' : Stands revokes between earlier action) : Stands revokes history earlier action := by
  obtain ⟨later, rfl, hlater⟩ := h
  obtain ⟨rest, rfl, hrest⟩ := h'
  refine ⟨rest ++ other :: later, by simp, ?_⟩
  rw [List.forall_mem_append, List.forall_mem_cons]
  exact ⟨hrest, kept, hlater⟩

/-- An action that stands has a moment before it, which is earlier. -/
theorem Stands.length_lt (h : Stands revokes history earlier action) :
    earlier.length < history.length := by
  obtain ⟨later, rfl, -⟩ := h
  rw [List.length_append, List.length_cons]
  omega

/-- **What is insisted on after one more action** is what it insists on, or what was insisted on before. -/
theorem insisted_concat :
    Insisted (history ++ [last]) support ↔
      last = .insist support ∨ last.endsInsistence = false ∧ Insisted history support := by
  constructor
  · rintro ⟨earlier, h⟩
    obtain ⟨-, hlast⟩ | ⟨hkept, h⟩ := stands_concat.mp h
    · exact .inl hlast.symm
    · exact .inr ⟨hkept, earlier, h⟩
  · rintro (rfl | ⟨hkept, earlier, h⟩)
    · exact ⟨history, stands_concat.mpr (.inl ⟨rfl, rfl⟩)⟩
    · exact ⟨earlier, stands_concat.mpr (.inr ⟨hkept, h⟩)⟩

/-- Whoever asked with nothing insisted on, and had an answer that was not forgotten since, was preceded by a
    first one. -/
theorem exists_foundAt (asked : Stands SupportAction.endsFinding history earlier .find)
    (free : Free earlier) : ∃ moment, FoundAt history moment := by
  -- Of all such moments the first one is meant.
  induction hlength : earlier.length using Nat.strong_induction_on generalizing earlier with
  | _ length ih =>
    by_cases hfirst : ∀ before, Stands SupportAction.endsFinding earlier before .find → ¬Free before
    · exact ⟨earlier, asked, free, hfirst⟩
    · push Not at hfirst
      obtain ⟨before, hbefore, hfree⟩ := hfirst
      exact ih before.length (hlength ▸ hbefore.length_lt) (asked.trans rfl hbefore) hfree rfl

/-- **When the support was found out, after one more action**: at the moment of the action, if that is the
    first one to ask for it, or when it was found out before. -/
theorem foundAt_concat :
    FoundAt (history ++ [last]) moment ↔
      (moment = history ∧ last = .find ∧ Free history ∧ ∀ other, ¬FoundAt history other) ∨
        last.endsFinding = false ∧ FoundAt history moment := by
  constructor
  · rintro ⟨hasked, hfree, hfirst⟩
    obtain ⟨rfl, hlast⟩ | ⟨hkept, hasked⟩ := stands_concat.mp hasked
    · exact .inl ⟨rfl, hlast.symm, hfree, fun other h => hfirst other h.asked h.free⟩
    · exact .inr ⟨hkept, hasked, hfree, hfirst⟩
  · rintro (⟨rfl, rfl, hfree, hnone⟩ | ⟨hkept, hasked, hfree, hfirst⟩)
    · refine ⟨stands_concat.mpr (.inl ⟨rfl, rfl⟩), hfree, fun earlier hearlier hfree' => ?_⟩
      obtain ⟨other, hother⟩ := exists_foundAt hearlier hfree'
      exact hnone other hother
    · exact ⟨stands_concat.mpr (.inr ⟨hkept, hasked⟩), hfree, hfirst⟩

end Histories

/-! ### The settings -/

namespace Settings

variable {settings : Settings} {support : Support}

/-- What is insisted on is the answer. Nothing is looked at, and nothing changes. -/
theorem findSupport_of_insisted (h : settings.supportOverride = some support) :
    settings.findSupport = (support, settings, []) := by
  unfold findSupport
  rw [h]

/-- With nothing insisted on, what was found out is the answer. Nothing is looked at. -/
theorem findSupport_of_found (free : settings.supportOverride = none)
    (h : settings.cachedSupport = some support) : settings.findSupport = (support, settings, []) := by
  unfold findSupport
  rw [free, h]

/-- With nothing insisted on and nothing found out, the environment is looked at, and its answer is kept. -/
theorem findSupport_of_none (free : settings.supportOverride = none)
    (h : settings.cachedSupport = none) :
    settings.findSupport =
      (settings.environment.support .standardOutput,
        { settings with cachedSupport := some (settings.environment.support .standardOutput) },
        [.supportDetected (settings.environment.support .standardOutput)]) := by
  unfold findSupport
  rw [free, h]

/-- Whatever is known already, the question changes nothing. -/
theorem after_find_of_known
    (known : ¬(settings.supportOverride = none ∧ settings.cachedSupport = none)) :
    settings.after .find = settings := by
  show settings.findSupport.2.1 = settings
  cases hinsisted : settings.supportOverride with
  | some support => rw [findSupport_of_insisted hinsisted]
  | none =>
    cases hfound : settings.cachedSupport with
    | some support => rw [findSupport_of_found hinsisted hfound]
    | none => exact absurd ⟨hinsisted, hfound⟩ known

/-- With nothing insisted on, the answer is what is remembered afterwards. -/
theorem cachedSupport_after_find (free : settings.supportOverride = none) :
    (settings.after .find).cachedSupport = some settings.findSupport.1 := by
  show settings.findSupport.2.1.cachedSupport = _
  cases hfound : settings.cachedSupport with
  | none => rw [findSupport_of_none free hfound]
  | some support => rw [findSupport_of_found free hfound, hfound]

/-- The question changes nothing but what was found out. -/
theorem exists_after_find (settings : Settings) :
    ∃ found, settings.after .find = { settings with cachedSupport := found } := by
  show ∃ found, settings.findSupport.2.1 = _
  unfold findSupport
  split <;> exact ⟨_, rfl⟩

/-- One action more is done to the settings that the others leave. -/
theorem run_concat (settings : Settings) (actions : List SupportAction) (action : SupportAction) :
    settings.run (actions ++ [action]) = (settings.run actions).after action :=
  List.foldl_concat ..

end Settings

/-- One action more is done to the environment that the others leave. -/
theorem environmentAfter_concat (start : Environment) (history : List SupportAction)
    (action : SupportAction) :
    environmentAfter start (history ++ [action]) =
      action.environment (environmentAfter start history) :=
  List.foldl_concat ..

/-- The settings keep what a history says: the environment as it is by now, the support insisted on, and the
    one that the environment told when it was found out. -/
structure Recalls (start : Environment) (history : List SupportAction) (settings : Settings) : Prop where
  environment : settings.environment = environmentAfter start history
  insisted : ∀ support, settings.supportOverride = some support ↔ Insisted history support
  found : ∀ support, settings.cachedSupport = some support ↔
    ∃ moment, FoundAt history moment ∧ (environmentAfter start moment).support .standardOutput = support

namespace Recalls

variable {start : Environment} {history : List SupportAction} {settings : Settings}

/-- No support is kept as insisted on if and only if the history insists on none. -/
theorem free_iff (h : Recalls start history settings) :
    settings.supportOverride = none ↔ Free history := by
  unfold Free
  simp only [← h.insisted, Option.eq_none_iff_forall_ne_some]

/-- No support is kept as found out if and only if the history has no moment at which it was. -/
theorem unfound_iff (h : Recalls start history settings) :
    settings.cachedSupport = none ↔ ∀ moment, ¬FoundAt history moment := by
  rw [Option.eq_none_iff_forall_ne_some]
  constructor
  · intro hnone moment hmoment
    exact hnone _ ((h.found _).mpr ⟨moment, hmoment, rfl⟩)
  · intro hnone support hsupport
    obtain ⟨moment, hmoment, -⟩ := (h.found support).mp hsupport
    exact hnone moment hmoment

/-- One more action that is no question for the support, and does not make it forgotten, leaves it as it was
    found out. -/
theorem found_of_kept (h : Recalls start history settings) {action : SupportAction} (other : action ≠ .find)
    (kept : action.endsFinding = false) (support : Support) :
    settings.cachedSupport = some support ↔ ∃ moment, FoundAt (history ++ [action]) moment ∧
      (environmentAfter start moment).support .standardOutput = support := by
  simp only [h.found, foundAt_concat, other, kept, false_and, and_false, true_and, false_or]

/-- Asking for the support finds it out, unless one is insisted on or it was found out before. -/
theorem found_find (h : Recalls start history settings) (support : Support) :
    (settings.after .find).cachedSupport = some support ↔ ∃ moment, FoundAt (history ++ [.find]) moment ∧
      (environmentAfter start moment).support .standardOutput = support := by
  by_cases hnew : Free history ∧ ∀ moment, ¬FoundAt history moment
  · -- This is the moment of finding.
    have free := h.free_iff.mpr hnew.1
    have unfound := h.unfound_iff.mpr hnew.2
    rw [Settings.cachedSupport_after_find free, Settings.findSupport_of_none free unfound, h.environment,
      Option.some_inj]
    simp only [foundAt_concat, hnew.1, hnew.2, implies_true, not_false_eq_true, and_true, and_false,
      or_false, exists_eq_left]
  · -- There is an answer already, so the question neither changes the settings nor is a moment of finding.
    have known : ¬(settings.supportOverride = none ∧ settings.cachedSupport = none) := by
      rw [h.free_iff, h.unfound_iff]
      exact hnew
    have hkept : ∀ moment, FoundAt (history ++ [.find]) moment ↔ FoundAt history moment := by
      intro moment
      rw [foundAt_concat]
      constructor
      · rintro (⟨-, -, hfree, hnone⟩ | ⟨-, hfound⟩)
        · exact absurd ⟨hfree, hnone⟩ hnew
        · exact hfound
      · intro hfound
        exact .inr ⟨rfl, hfound⟩
    rw [Settings.after_find_of_known known, h.found]
    simp only [hkept]

/-- **Each action keeps it so.** -/
theorem after (h : Recalls start history settings) (action : SupportAction) :
    Recalls start (history ++ [action]) (settings.after action) where
  environment := by
    rw [environmentAfter_concat, ← h.environment]
    cases action with
    | find =>
      obtain ⟨found, hafter⟩ := settings.exists_after_find
      rw [hafter]
      rfl
    | _ => rfl
  insisted support := by
    rw [insisted_concat, ← h.insisted]
    cases action with
    | insist other => simp [Settings.after, Settings.insistOnSupport, SupportAction.endsInsistence]
    | drop => simp [Settings.after, Settings.dropSupport, SupportAction.endsInsistence]
    | forget => simp [Settings.after, Settings.forgetSupport, SupportAction.endsInsistence]
    | change edit => simp [Settings.after, SupportAction.endsInsistence]
    | find =>
      obtain ⟨found, hafter⟩ := settings.exists_after_find
      simp [hafter, SupportAction.endsInsistence]
  found support := by
    cases action with
    | forget => simp [Settings.after, Settings.forgetSupport, foundAt_concat, SupportAction.endsFinding]
    | find => exact h.found_find support
    | _ => exact h.found_of_kept (by simp) rfl support

end Recalls

/-- At the start nothing is insisted on and nothing is found out. -/
theorem recalls_start (start : Environment) : Recalls start [] { environment := start } where
  environment := rfl
  insisted support := by simp [Insisted, not_stands_nil]
  found support := by
    have hnone : ∀ moment, ¬FoundAt [] moment := fun moment h => not_stands_nil h.asked
    simp [hnone]

/-- **So do all.** The settings tell as much as the whole history. -/
theorem recalls_run (start : Environment) (history : List SupportAction) :
    Recalls start history (Settings.run { environment := start } history) := by
  induction history using List.reverseRecOn with
  | nil => exact recalls_start start
  | append_singleton history action ih =>
    rw [Settings.run_concat]
    exact ih.after action

namespace Recalls

variable {start : Environment} {history : List SupportAction} {settings : Settings} {support : Support}

/-- The answer is the one that is due. -/
theorem answers_iff (h : Recalls start history settings) :
    Answers start history support ↔ settings.findSupport.1 = support := by
  constructor
  · rintro (hinsisted | ⟨free, hfound⟩)
    · rw [Settings.findSupport_of_insisted ((h.insisted support).mpr hinsisted)]
    · have hafter := ((h.after .find).found _).mpr ⟨_, hfound, rfl⟩
      rw [Settings.cachedSupport_after_find (h.free_iff.mpr free)] at hafter
      exact Option.some.inj hafter
  · rintro rfl
    cases hinsisted : settings.supportOverride with
    | some insisted =>
      rw [Settings.findSupport_of_insisted hinsisted]
      exact .insisted ((h.insisted insisted).mp hinsisted)
    | none =>
      obtain ⟨moment, hmoment, hsupport⟩ :=
        ((h.after .find).found _).mp (Settings.cachedSupport_after_find hinsisted)
      rw [← hsupport]
      exact .found (h.free_iff.mp hinsisted) hmoment

end Recalls

/-! ### The bytes -/

namespace Process

variable {process : Process}

/-- What is insisted on is the answer. Nothing is looked at, and no byte changes. -/
theorem find_of_insisted {support : Support} (h : process.insistence.read? = some support) :
    process.find = (support, process, []) := by
  unfold find
  rw [h]

/-- The bytes give the answer of the settings that they stand for, and stand for the settings afterwards. -/
theorem findSupport_settings (process : Process) :
    process.settings.findSupport = (process.find.1, process.find.2.1.settings, process.find.2.2) := by
  unfold find
  cases hinsisted : process.insistence.read? with
  | some support => exact Settings.findSupport_of_insisted hinsisted
  | none =>
    cases hfound : process.finding.read? with
    | some support => exact Settings.findSupport_of_found hinsisted hfound
    | none =>
      rw [Settings.findSupport_of_none hinsisted hfound]
      simp [settings]

/-- A byte that is written is read back, so each action does the same to the bytes and to the settings. -/
theorem settings_after (process : Process) (action : SupportAction) :
    (process.after action).settings = process.settings.after action := by
  cases action with
  | insist support => simp [after, settings, Settings.after, Settings.insistOnSupport]
  | drop => simp [after, settings, Settings.after, Settings.dropSupport]
  | forget => simp [after, settings, Settings.after, Settings.forgetSupport]
  | change edit => rfl
  | find =>
    show process.find.2.1.settings = process.settings.findSupport.2.1
    rw [findSupport_settings]

/-- **The bytes stand for the settings throughout.** -/
theorem settings_run (process : Process) (actions : List SupportAction) :
    (process.run actions).settings = process.settings.run actions := by
  unfold run Settings.run
  induction actions generalizing process with
  | nil => rfl
  | cons action rest ih => rw [List.foldl_cons, List.foldl_cons, ih, settings_after]

end Process

/-! ### The answers -/

/-- **The support follows from what was done.** Whatever is done to a process that has nothing to begin with,
    whoever asks is given the support that was insisted on last and not dropped since; if there is none, the
    one that the environment told when it was asked for with nothing insisted on, for the first time since
    what was found was last forgotten. What became of the environment since, and of what was insisted on,
    does not matter. As long as a support is insisted on, a question for it does not look at the environment,
    whatever that is, and changes nothing. All of this is so for the settings and for the bytes in which they
    are kept. -/
theorem support_follows_history (start : Environment) (history : List SupportAction) :
    let settings := Settings.run { environment := start } history
    let process := Process.run { environment := start } history
    (∀ support, Answers start history support ↔ settings.findSupport.1 = support) ∧
      (∀ support, Insisted history support → ∀ environment,
        let elsewhere := { settings with environment }
        elsewhere.findSupport = (support, elsewhere, [])) ∧
      process.settings = settings ∧ process.find.1 = settings.findSupport.1 ∧
      ∀ support, Insisted history support → ∀ environment,
        let elsewhere := { process with environment }
        elsewhere.find = (support, elsewhere, []) := by
  intro settings process
  have recalls : Recalls start history settings := recalls_run start history
  have stands : process.settings = settings := Process.settings_run { environment := start } history
  refine ⟨fun support => recalls.answers_iff, fun support insisted environment => ?_, stands, ?_,
    fun support insisted environment => ?_⟩
  · have held : settings.supportOverride = some support := (recalls.insisted support).mpr insisted
    exact Settings.findSupport_of_insisted held
  · rw [← stands, Process.findSupport_settings]
  · have held : process.settings.supportOverride = some support := by
      rw [stands]
      exact (recalls.insisted support).mpr insisted
    exact Process.find_of_insisted held

/-- A support is insisted on when it is asked for the first time. When it is asked for again, nothing is
    insisted on and no colours are wanted. That is remembered when they are wanted again, and while another
    support is insisted on for some time. -/
theorem support_found_between_insistences :
    let start : Environment := { entries := [("TERM", "xterm-256color"), ("IGNORE_IS_TERMINAL", "1")] }
    let history : List SupportAction :=
      [.insist .truecolor, .find, .set "NO_COLOR" "1", .drop, .find, .unset "NO_COLOR", .insist .grayscale]
    let dropped : List SupportAction := [.find, .drop]
    let settings := Settings.run { environment := start } history
    start.support .standardOutput = .palette ∧ Insisted history .grayscale ∧
      (∀ environment, let elsewhere := { settings with environment }
        elsewhere.findSupport = (.grayscale, elsewhere, [])) ∧
      Answers start (history ++ dropped) .colorless := by
  intro start history dropped settings
  have insisted : Insisted history .grayscale := ⟨history.dropLast, [], rfl, by simp⟩
  have answer : (Settings.run { environment := start } (history ++ dropped)).findSupport.1 =
      .colorless := by decide +kernel
  exact ⟨by decide +kernel, insisted, (support_follows_history start history).2.1 .grayscale insisted,
    ((support_follows_history start (history ++ dropped)).1 .colorless).mpr answer⟩

end BoxTree
