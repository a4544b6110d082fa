import BoxTree.Proofs.BuilderSpans
import BoxTree.Proofs.StepGrammar

namespace BoxTree

/-!
# The outcome of building

A builder keeps count of what the steps so far have started and finished. The first mistake stays the one that
is reported, whatever steps follow it.

* `Builder.Tracks` — a builder after steps without mistakes.
* `Builder.Tracks.perform`, `Builder.tracks_run` — one more step that is no mistake, and a run of them.
* `Builder.mistake_run` — the first mistake of a run.
* `build_outcome` — when there is a document, and which mistake is reported when there is none.
-/

namespace Builder

variable {builder : Builder} {steps before : List Step} {step : Step} {reason : String} {error : Error}
  {label : Label}

/-! ### Attaching -/

/-- A node is attached unless it would be a second root. -/
theorem attach_eq (builder : Builder) (known : ∀ id ∈ builder.unfinished, id < builder.forest.size)
    (single : builder.unfinished = [] → builder.root = none) (label : Label) :
    ∃ forest, builder.forest.add label builder.unfinished.head? = .ok (forest, builder.forest.size) ∧
      builder.attach label =
        ({ builder with
            forest
            root := if builder.unfinished.head?.isNone then some builder.forest.size else builder.root },
          some builder.forest.size) := by
  obtain ⟨forest, hadd⟩ := Forest.exists_add label fun above h => known above (List.mem_of_mem_head? h)
  refine ⟨forest, hadd, ?_⟩
  unfold Builder.attach
  cases hunfinished : builder.unfinished with
  | nil =>
    rw [hunfinished] at hadd
    simp only [List.head?_nil] at hadd ⊢
    simp only [single hunfinished, hadd]
  | cons above outer =>
    rw [hunfinished] at hadd
    simp only [List.head?_cons] at hadd ⊢
    simp only [hadd]
    rfl

/-- A second root is not attached. -/
theorem attach_second (builder : Builder) {root : Nat} (closed : builder.unfinished = []) (rooted : builder.root = some root)
    (label : Label) : builder.attach label = (builder.note Fault.secondRoot.error, none) := by
  unfold Builder.attach
  simp only [closed, rooted, List.head?_nil]

/-! ### Keeping count -/

/-- A builder after these steps, none of which was a mistake. -/
structure Tracks (builder : Builder) (steps : List Step) : Prop where
  mistake : builder.mistake = none
  count : builder.unfinished.length + Step.finishes steps = Step.starts steps
  /-- Only nodes that are there are unfinished, so one can always be added below them. -/
  known : ∀ id ∈ builder.unfinished, id < builder.forest.size
  rootless : builder.root = none ↔ ∀ step ∈ steps, step.addsNode = false
  rootKnown : ∀ root, builder.root = some root → root < builder.forest.size

/-- A new builder is one after no steps. -/
theorem tracks_new : Tracks {} [] := ⟨rfl, rfl, by simp, by simp, by simp⟩

/-- Every node is finished if and only if nothing is left unfinished. -/
theorem Tracks.unfinished_eq_nil (tracks : builder.Tracks steps) :
    builder.unfinished = [] ↔ Step.starts steps = Step.finishes steps := by
  rw [← List.length_eq_zero_iff]
  have := tracks.count
  omega

/-! ### One step -/

/-- Text changes nothing that is counted. -/
theorem Tracks.write (tracks : builder.Tracks steps) (text : String) :
    (builder.write text).Tracks steps :=
  ⟨tracks.mistake, tracks.count, tracks.known, tracks.rootless, tracks.rootKnown⟩

/-- Inside a node there is a root. -/
theorem Tracks.root_ne_none (tracks : builder.Tracks steps) (inside : builder.unfinished ≠ []) :
    builder.root ≠ none := by
  intro hnone
  have hstarts : Step.starts steps = 0 := by
    refine List.countP_eq_zero.mpr fun step mem => ?_
    have := tracks.rootless.mp hnone step mem
    cases step <;> simp_all [Step.addsNode, Step.isStart]
  have := tracks.count
  exact inside (List.length_eq_zero_iff.mp (by omega))

/-- A node that has been attached is tracked, and is unfinished if it was started. -/
theorem Tracks.added {forest : Forest} (tracks : builder.Tracks before) (step : Step) (adds : step.addsNode = true)
    (hadd : builder.forest.add label builder.unfinished.head? = .ok (forest, builder.forest.size)) :
    Tracks
      { builder with
        forest
        unfinished :=
          if step.isStart then builder.forest.size :: builder.unfinished else builder.unfinished
        root := if builder.unfinished.head?.isNone then some builder.forest.size else builder.root }
      (before ++ [step]) := by
  obtain ⟨-, hsize, -⟩ := Forest.id_of_add hadd
  have hfinish : step ≠ .finish := by
    rintro rfl
    cases adds
  refine ⟨tracks.mistake, ?_, fun id mem => ?_, ?_, fun root hroot => ?_⟩
  · have := tracks.count
    simp only [Step.starts_append, Step.finishes_append, Step.starts_cons, Step.finishes_cons, hfinish,
      Step.starts_nil, Step.finishes_nil, if_false]
    split <;> simp <;> omega
  · dsimp only at mem ⊢
    rw [hsize]
    split at mem
    · rcases List.mem_cons.mp mem with rfl | mem
      · exact Nat.lt_succ_self _
      · exact Nat.lt_succ_of_lt (tracks.known id mem)
    · exact Nat.lt_succ_of_lt (tracks.known id mem)
  · refine iff_of_false ?_ fun hnone => ?_
    · dsimp only
      cases hunfinished : builder.unfinished with
      | nil => simp
      | cons above outer => simpa using tracks.root_ne_none (by simp [hunfinished])
    · have := hnone step (by simp)
      simp [adds] at this
  · dsimp only at hroot ⊢
    rw [hsize]
    split at hroot
    · obtain rfl := Option.some.inj hroot
      exact Nat.lt_succ_self _
    · exact Nat.lt_succ_of_lt (tracks.rootKnown root hroot)

/-- A step that neither starts, finishes nor adds a node is tracked by what was tracked before. -/
theorem Tracks.gap (tracks : builder.Tracks before) (text : String) :
    builder.Tracks (before ++ [.gap text]) := by
  refine ⟨tracks.mistake, ?_, tracks.known, ?_, tracks.rootKnown⟩
  · simpa [Step.starts_cons, Step.finishes_cons, Step.isStart] using tracks.count
  · rw [tracks.rootless]
    simp [or_imp, forall_and, Step.addsNode]

/-- A node that is started or added, where it would be no second root, is added. -/
theorem Tracks.single (tracks : builder.Tracks before) (adds : step.addsNode = true)
    (right : ∀ reason, ¬ Step.Mistaken before step reason) :
    builder.unfinished = [] → builder.root = none := by
  intro hclosed
  refine tracks.rootless.mpr fun earlier mem => ?_
  by_contra hrooted
  exact right _ (.second adds (tracks.unfinished_eq_nil.mp hclosed) mem (by simpa using hrooted))

/-- **A step that is no mistake is tracked.** -/
theorem Tracks.perform (tracks : builder.Tracks before)
    (right : ∀ reason, ¬ Step.Mistaken before step reason) :
    (builder.perform step).Tracks (before ++ [step]) := by
  have hleaf : ∀ name text, step.addsNode = true → step.isStart = false →
      (builder.addLeaf name text).Tracks (before ++ [step]) := by
    intro name text adds childless
    have hwritten := tracks.write text
    obtain ⟨forest, hadd, hattach⟩ := attach_eq _ hwritten.known (tracks.single adds right)
      ⟨name, builder.length, (builder.write text).length⟩
    unfold addLeaf
    dsimp only
    rw [hattach]
    have hadded := hwritten.added step adds hadd
    rw [childless] at hadded
    exact hadded
  cases step with
  | start name =>
    obtain ⟨forest, hadd, hattach⟩ := attach_eq _ tracks.known (tracks.single rfl right)
      ⟨name, builder.length, builder.length⟩
    show (builder.startNode name).Tracks _
    unfold startNode
    rw [hattach]
    exact tracks.added (.start name) rfl hadd
  | finish =>
    show builder.finishNode.Tracks _
    unfold finishNode
    cases hunfinished : builder.unfinished with
    | nil => exact absurd (.finish (tracks.unfinished_eq_nil.mp hunfinished)) (right _)
    | cons id outer =>
      have hcount := tracks.count
      have hknown := tracks.known
      rw [hunfinished] at hcount hknown
      refine ⟨tracks.mistake, ?_, fun id mem => ?_, ?_, fun root hroot => ?_⟩
      · simp [Step.starts_cons, Step.finishes_cons, Step.isStart] at hcount ⊢
        omega
      · rw [Forest.size_setStop]
        exact hknown id (List.mem_cons_of_mem _ mem)
      · rw [tracks.rootless]
        simp [or_imp, forall_and, Step.addsNode]
      · rw [Forest.size_setStop]
        exact tracks.rootKnown root hroot
  | leaf name text => exact hleaf name text rfl rfl
  | token text => exact hleaf text text rfl rfl
  | gap text => exact (tracks.write text).gap text

/-- **A mistake is noted**, if it is the first one. -/
theorem Tracks.mistaken (tracks : builder.Tracks before) (mistaken : Step.Mistaken before step reason) :
    (builder.perform step).mistake = some (.malformedTree reason) := by
  cases mistaken with
  | finish closed =>
    have hclosed := tracks.unfinished_eq_nil.mpr closed
    show builder.finishNode.mistake = _
    unfold finishNode note
    simp only [hclosed, tracks.mistake]
    rfl
  | @second _ earlier adds closed mem rooted =>
    have hclosed := tracks.unfinished_eq_nil.mpr closed
    obtain ⟨root, hroot⟩ := Option.ne_none_iff_exists'.mp fun hnone => by
      have := tracks.rootless.mp hnone earlier mem
      simp [rooted] at this
    have hnoted : ∀ builder : Builder, builder.mistake = none →
        (builder.note Fault.secondRoot.error).mistake =
          some (.malformedTree "a tree can only have one root") := by
      intro builder hnone
      unfold note
      rw [hnone]
      rfl
    have hleaf : ∀ name text, (builder.addLeaf name text).mistake =
        some (.malformedTree "a tree can only have one root") := by
      intro name text
      unfold addLeaf
      dsimp only
      rw [attach_second (builder.write text) hclosed hroot]
      exact hnoted (builder.write text) tracks.mistake
    cases step with
    | start name =>
      show (builder.startNode name).mistake = _
      unfold startNode
      rw [attach_second builder hclosed hroot]
      exact hnoted builder tracks.mistake
    | leaf name text => exact hleaf name text
    | token text => exact hleaf text text
    | finish | gap text => cases adds

/-- A mistake that has been noted stays. -/
theorem mistake_attach (builder : Builder) (noted : builder.mistake = some error) (label : Label) :
    (builder.attach label).1.mistake = some error := by
  have hnote : ∀ other, (builder.note other).mistake = some error := by
    intro other
    unfold note
    rw [noted]
    rfl
  unfold Builder.attach
  split
  · exact hnote _
  · split
    · exact noted
    · exact hnote _

/-- A builder that has noted a mistake has noted the same one after any step. -/
theorem mistake_perform (noted : builder.mistake = some error) (step : Step) :
    (builder.perform step).mistake = some error := by
  have hleaf : ∀ name text, (builder.addLeaf name text).mistake = some error := fun name text =>
    mistake_attach (builder.write text) noted _
  cases step with
  | start name =>
    have hattached := mistake_attach builder noted ⟨name, builder.length, builder.length⟩
    show (builder.startNode name).mistake = _
    unfold startNode
    rcases hresult : builder.attach ⟨name, builder.length, builder.length⟩ with ⟨after, _ | id⟩ <;>
      rw [hresult] at hattached <;> exact hattached
  | finish =>
    show builder.finishNode.mistake = _
    unfold finishNode note
    rw [noted]
    split <;> rfl
  | leaf name text => exact hleaf name text
  | token text => exact hleaf text text
  | gap text => exact noted

/-! ### Runs -/

/-- A run in two parts is the second part on the builder that the first one leaves. -/
theorem run_append (builder : Builder) (first second : List Step) :
    builder.run (first ++ second) = (builder.run first).run second := List.foldl_append

/-- Steps without mistakes are tracked. -/
theorem tracks_run (faultless : Step.Faultless steps) : (run {} steps).Tracks steps := by
  induction steps using List.reverseRecOn with
  | nil => exact tracks_new
  | append_singleton before step ih =>
    rw [run_append]
    exact (ih faultless.of_append).perform fun reason => faultless.last

/-- **The first mistake is the one that is noted**, whatever steps follow it. -/
theorem mistake_run (first : Step.FirstMistake steps reason) :
    (run {} steps).mistake = some (.malformedTree reason) := by
  obtain ⟨before, step, behind, rfl, faultless, mistaken⟩ := first
  have hnoted := (tracks_run faultless).mistaken mistaken
  have hkept : ∀ builder : Builder, builder.mistake = some (.malformedTree reason) →
      (builder.run behind).mistake = some (.malformedTree reason) := by
    induction behind with
    | nil => exact fun _ noted => noted
    | cons step rest ih => exact fun builder noted => ih (builder.perform step) (mistake_perform noted step)
  rw [run_append]
  exact hkept _ hnoted

/-- What is reported of a builder without mistakes: a node that is not finished, or none at all. -/
theorem Tracks.build (tracks : builder.Tracks steps) :
    (Step.finishes steps < Step.starts steps ∧
        builder.build = .error (.malformedTree "build() with nodes still open")) ∨
      (Step.starts steps = Step.finishes steps ∧ (∀ step ∈ steps, step.addsNode = false) ∧
        builder.build = .error (.malformedTree "build() on an empty tree")) ∨
      (Step.starts steps = Step.finishes steps ∧ (∃ step ∈ steps, step.addsNode = true) ∧
        ∃ document, builder.build = .ok document) := by
  have hcount := tracks.count
  unfold Builder.build
  rw [tracks.mistake]
  cases hunfinished : builder.unfinished with
  | cons id outer =>
    rw [hunfinished, List.length_cons] at hcount
    exact .inl ⟨by omega, rfl⟩
  | nil =>
    have hclosed := tracks.unfinished_eq_nil.mp hunfinished
    cases hroot : builder.root with
    | none => exact .inr (.inl ⟨hclosed, tracks.rootless.mp hroot, rfl⟩)
    | some root =>
      refine .inr (.inr ⟨hclosed, ?_, ⟨builder.forest, root, builder.text⟩, ?_⟩)
      · by_contra hnone
        push Not at hnone
        have := tracks.rootless.mpr fun step mem => by simpa using hnone step mem
        rw [hroot] at this
        cases this
      · exact if_pos (decide_eq_true (tracks.rootKnown root hroot))

end Builder

namespace Document

variable {steps : List Step} {reason : String}

/-- Steps with a mistake build no document, and the first mistake is reported. -/
theorem ofSteps_of_firstMistake (first : Step.FirstMistake steps reason) :
    ofSteps steps = .error (.malformedTree reason) := by
  unfold ofSteps Builder.build
  rw [Builder.mistake_run first]

/-- **There is a document** if and only if the steps without gaps spell one tree. -/
theorem exists_ofSteps_iff (steps : List Step) :
    (∃ document, ofSteps steps = .ok document) ↔ Step.SpellsTree (Step.ungapped steps) := by
  rw [Step.spellsTree_iff]
  constructor
  · rintro ⟨document, built⟩
    obtain faultless | ⟨reason, first⟩ := Step.faultless_or_firstMistake steps
    · obtain ⟨-, hbuild⟩ | ⟨-, -, hbuild⟩ | ⟨hclosed, hroot, -⟩ := (Builder.tracks_run faultless).build
      · cases built.symm.trans hbuild
      · cases built.symm.trans hbuild
      · exact ⟨faultless, hclosed, hroot⟩
    · cases built.symm.trans (ofSteps_of_firstMistake first)
  · rintro ⟨faultless, hclosed, step, mem, adds⟩
    obtain ⟨hopen, -⟩ | ⟨-, hempty, -⟩ | ⟨-, -, hbuild⟩ := (Builder.tracks_run faultless).build
    · omega
    · cases adds.symm.trans (hempty step mem)
    · exact hbuild

/-- **What is reported** is the first mistake; without one, that nodes are still open, or that there are
    none. -/
theorem ofSteps_eq_error_iff (steps : List Step) (error : Error) :
    ofSteps steps = .error error ↔
      (∃ reason, Step.FirstMistake steps reason ∧ error = .malformedTree reason) ∨
      (Step.Faultless steps ∧ Step.finishes steps < Step.starts steps ∧
        error = .malformedTree "build() with nodes still open") ∨
      (Step.Faultless steps ∧ Step.starts steps = Step.finishes steps ∧
        (∀ step ∈ steps, step.addsNode = false) ∧
        error = .malformedTree "build() on an empty tree") := by
  constructor
  · intro failed
    obtain faultless | ⟨reason, first⟩ := Step.faultless_or_firstMistake steps
    · obtain ⟨hopen, hbuild⟩ | ⟨hclosed, hempty, hbuild⟩ | ⟨-, -, document, hbuild⟩ :=
        (Builder.tracks_run faultless).build
      · exact .inr (.inl ⟨faultless, hopen, Except.error.inj (failed.symm.trans hbuild)⟩)
      · exact .inr (.inr ⟨faultless, hclosed, hempty, Except.error.inj (failed.symm.trans hbuild)⟩)
      · cases failed.symm.trans hbuild
    · exact .inl ⟨reason, first, Except.error.inj (failed.symm.trans (ofSteps_of_firstMistake first))⟩
  · rintro (⟨reason, first, rfl⟩ | ⟨faultless, hopen, rfl⟩ | ⟨faultless, hclosed, hempty, rfl⟩)
    · exact ofSteps_of_firstMistake first
    · obtain ⟨-, hbuild⟩ | ⟨hclosed, -⟩ | ⟨hclosed, -⟩ := (Builder.tracks_run faultless).build
      · exact hbuild
      · omega
      · omega
    · obtain ⟨hopen, -⟩ | ⟨-, -, hbuild⟩ | ⟨-, ⟨step, mem, adds⟩, -⟩ :=
        (Builder.tracks_run faultless).build
      · omega
      · exact hbuild
      · cases adds.symm.trans (hempty step mem)

end Document

/-- **When there is a document, and what is reported when there is none.** There is one if and only if the
    steps without gaps spell exactly one tree. Else the first mistake is reported, whatever steps follow it;
    where there is no mistake, a node that is not finished, or the lack of any node. No node is ever
    unknown. -/
theorem build_outcome (steps : List Step) :
    ((∃ document, Document.ofSteps steps = .ok document) ↔ Step.SpellsTree (Step.ungapped steps)) ∧
      (∀ error, Document.ofSteps steps = .error error ↔
        (∃ reason, Step.FirstMistake steps reason ∧ error = .malformedTree reason) ∨
        (Step.Faultless steps ∧ Step.finishes steps < Step.starts steps ∧
          error = .malformedTree "build() with nodes still open") ∨
        (Step.Faultless steps ∧ Step.starts steps = Step.finishes steps ∧
          (∀ step ∈ steps, step.addsNode = false) ∧
          error = .malformedTree "build() on an empty tree")) ∧
      ∀ id, Document.ofSteps steps ≠ .error (.unknownNode id) := by
  refine ⟨Document.exists_ofSteps_iff steps, Document.ofSteps_eq_error_iff steps, fun id failed => ?_⟩
  obtain ⟨_, _, h⟩ | ⟨_, _, h⟩ | ⟨_, _, _, h⟩ := (Document.ofSteps_eq_error_iff steps _).mp failed <;> cases h

/-- A root that is one too many is not started, so its own end is a mistake as well, but not the first. -/
example : Document.ofSteps [.leaf "A" "a", .start "B", .finish] =
    .error (.malformedTree "a tree can only have one root") := by decide +kernel

end BoxTree
