import BoxTree.Syntax.Nesting
import Mathlib

namespace BoxTree

/-!
# Steps without mistakes

* `Step.Mistaken.ungapped` — gaps are no mistakes, and make none.
* `Step.faultless_or_firstMistake` — steps are without mistakes, or there is a first one.
* `Step.Closed`, `Step.SpellsTree.closed` — the steps of one tree finish at their end what they start, and not
  before it; `Step.Closed.faultless` — so there is no mistake among them.
* `Part.exists_stepsAll` — steps without mistakes that finish what they start build parts.
* `Part.single_of_faultless` — one of those parts is a node, if there is one among the steps.
* `Step.spellsTree_iff` — whether steps spell one tree can be told by counting.
-/

namespace Step

variable {steps before more : List Step} {step : Step} {reason : String}

/-! ### Counting -/

@[simp] theorem starts_nil : starts [] = 0 := rfl

@[simp] theorem finishes_nil : finishes [] = 0 := rfl

/-- Starts are counted step by step. -/
@[simp] theorem starts_append (first second : List Step) :
    starts (first ++ second) = starts first + starts second := List.countP_append

/-- Finishes are counted step by step. -/
@[simp] theorem finishes_append (first second : List Step) :
    finishes (first ++ second) = finishes first + finishes second := List.count_append

/-- A step is a start or none. -/
theorem starts_cons (step : Step) (rest : List Step) :
    starts (step :: rest) = (if step.isStart then 1 else 0) + starts rest := by
  unfold starts
  rw [List.countP_cons, Nat.add_comm]

/-- A step is a finish or none. -/
theorem finishes_cons (step : Step) (rest : List Step) :
    finishes (step :: rest) = (if step = .finish then 1 else 0) + finishes rest := by
  unfold finishes
  simp [List.count_cons, Nat.add_comm]

/-! ### Gaps -/

@[simp] theorem ungapped_append (first second : List Step) :
    ungapped (first ++ second) = ungapped first ++ ungapped second := List.filter_append ..

/-- A gap starts nothing. -/
theorem starts_ungapped (steps : List Step) : starts (ungapped steps) = starts steps := by
  unfold starts ungapped
  rw [List.countP_filter]
  refine List.countP_congr fun step _ => ?_
  cases step <;> simp [isStart, isGap]

/-- A gap finishes nothing. -/
theorem finishes_ungapped (steps : List Step) : finishes (ungapped steps) = finishes steps := by
  unfold finishes ungapped
  exact List.count_filter rfl

/-- Gaps are no mistakes, and make none. -/
theorem Mistaken.ungapped (mistaken : Mistaken before step reason) :
    step.isGap = false ∧ Mistaken (ungapped before) step reason := by
  cases mistaken with
  | finish closed => exact ⟨rfl, .finish (by rwa [starts_ungapped, finishes_ungapped])⟩
  | @second _ earlier adds closed mem rooted =>
    refine ⟨by cases step <;> simp_all [addsNode, isGap], ?_⟩
    refine .second adds (by rwa [starts_ungapped, finishes_ungapped]) (List.mem_filter.mpr ⟨mem, ?_⟩)
      rooted
    cases earlier <;> simp_all [addsNode, isGap]

/-- Steps are without fault if they are without their gaps. -/
theorem Faultless.of_ungapped (faultless : Faultless (ungapped steps)) : Faultless steps := by
  rintro before step behind reason rfl mistaken
  obtain ⟨hgap, mistaken'⟩ := mistaken.ungapped
  refine faultless _ step (Step.ungapped behind) reason ?_ mistaken'
  simp [Step.ungapped, hgap]

/-! ### First mistakes -/

/-- No steps, no mistake. -/
theorem faultless_nil : Faultless [] := by
  intro before step behind reason h
  simp at h

/-- What comes first of steps without fault is without fault. -/
theorem Faultless.of_append (faultless : Faultless (before ++ more)) : Faultless before := by
  rintro earlier step behind reason rfl
  exact faultless earlier step (behind ++ more) reason (by simp)

/-- A step that is no mistake leaves steps without mistakes. -/
theorem Faultless.add (faultless : Faultless before) (right : ∀ reason, ¬ Mistaken before step reason) :
    Faultless (before ++ [step]) := by
  intro earlier other behind reason h
  rcases List.eq_nil_or_concat behind with rfl | ⟨behind, last, rfl⟩
  · obtain ⟨rfl, hother⟩ := List.append_inj' h rfl
    obtain rfl := List.singleton_inj.mp hother
    exact right reason
  · rw [List.concat_eq_append, ← List.cons_append, ← List.append_assoc] at h
    obtain ⟨rfl, -⟩ := List.append_inj' h rfl
    exact faultless earlier other behind reason rfl

/-- Steps without fault have no first mistake. -/
theorem Faultless.not_firstMistake (faultless : Faultless steps) : ¬ FirstMistake steps reason := by
  rintro ⟨before, step, behind, rfl, -, mistaken⟩
  exact faultless before step behind reason rfl mistaken

/-- The last of steps without fault is no mistake. -/
theorem Faultless.last (faultless : Faultless (before ++ [step])) : ¬ Mistaken before step reason :=
  faultless before step [] reason rfl

/-- Steps are without mistakes, or one of them is the first mistake. -/
theorem faultless_or_firstMistake (steps : List Step) :
    Faultless steps ∨ ∃ reason, FirstMistake steps reason := by
  induction steps using List.reverseRecOn with
  | nil => exact .inl faultless_nil
  | append_singleton before step ih =>
    obtain faultless | ⟨reason, earlier, mistake, behind, rfl, hfaultless, hmistaken⟩ := ih
    · by_cases right : ∀ reason, ¬ Mistaken before step reason
      · exact .inl (faultless.add right)
      · push Not at right
        obtain ⟨reason, hmistaken⟩ := right
        exact .inr ⟨reason, before, step, [], rfl, faultless, hmistaken⟩
    · exact .inr ⟨reason, earlier, mistake, behind ++ [step], by simp, hfaultless, hmistaken⟩

/-! ### The steps of one tree -/

/-- Steps that finish what they start, at their end and not before it, and begin with a node. -/
structure Closed (steps : List Step) : Prop where
  counts : starts steps = finishes steps
  begins : ∃ step rest, steps = step :: rest ∧ step.addsNode = true
  within : ∀ before behind, steps = before ++ behind → before ≠ [] → behind ≠ [] →
    finishes before < starts before

/-- A step that adds a node and starts none is closed by itself. -/
theorem closed_singleton (adds : step.addsNode = true) (single : step.isStart = false) :
    Closed [step] where
  counts := by cases step <;> simp_all [addsNode, isStart, starts, finishes]
  begins := ⟨step, [], rfl, adds⟩
  within before behind h hbefore hbehind := by
    obtain ⟨first, rest, rfl⟩ := List.exists_cons_of_ne_nil hbefore
    have hlength := congrArg List.length h
    simp [hbehind] at hlength

/-- One list of closed steps after the other is finished, and never finishes more than it starts. -/
theorem closed_flatten {inside : List (List Step)} (closed : ∀ steps ∈ inside, Closed steps) :
    starts inside.flatten = finishes inside.flatten ∧
      ∀ before behind, inside.flatten = before ++ behind → finishes before ≤ starts before := by
  induction inside with
  | nil =>
    refine ⟨rfl, fun before behind h => ?_⟩
    obtain ⟨rfl, -⟩ := List.append_eq_nil_iff.mp h.symm
    exact le_refl _
  | cons first rest ih =>
    have hfirst := closed first List.mem_cons_self
    obtain ⟨hcounts, hprefix⟩ := ih fun steps mem => closed steps (List.mem_cons_of_mem _ mem)
    refine ⟨by simp [hfirst.counts, hcounts], fun before behind h => ?_⟩
    rw [List.flatten_cons] at h
    rcases List.append_eq_append_iff.mp h with ⟨behind', rfl, hrest⟩ | ⟨behind', hsplit, -⟩
    · have := hprefix behind' behind hrest
      have := hfirst.counts
      simp
      omega
    · by_cases hnone : behind' = []
      · obtain rfl : first = before := by simpa [hnone] using hsplit
        exact hfirst.counts.ge
      by_cases hempty : before = []
      · simp [hempty]
      · exact (hfirst.within before behind' hsplit hempty hnone).le

/-- The steps of one tree finish at their end, and not before it. -/
theorem SpellsTree.closed (spells : SpellsTree steps) : Closed steps := by
  induction spells with
  | leaf name text => exact closed_singleton rfl rfl
  | token text => exact closed_singleton rfl rfl
  | @node name inside _ ih =>
    obtain ⟨hcounts, hprefix⟩ := closed_flatten ih
    refine ⟨?_, ⟨_, _, rfl, rfl⟩, fun before behind h hbefore hbehind => ?_⟩
    · simp [starts_cons, finishes_cons, isStart, hcounts]
      omega
    -- Up to its end, the node that was started first is not finished.
    · obtain ⟨first, before, rfl⟩ := List.exists_cons_of_ne_nil hbefore
      obtain ⟨behind, last, rfl⟩ := (List.eq_nil_or_concat behind).resolve_left hbehind
      rw [List.cons_append, List.concat_eq_append, ← List.append_assoc] at h
      obtain ⟨rfl, hinside⟩ := List.cons_eq_cons.mp h
      have hbounded := hprefix before behind (List.append_inj' hinside rfl).1
      simp [starts_cons, finishes_cons, isStart]
      omega

/-- A mistake would have to be the first step, which is none. -/
theorem Closed.faultless (closed : Closed steps) : Faultless steps := by
  rintro before step behind reason rfl mistaken
  obtain ⟨first, rest, hfirst, adds⟩ := closed.begins
  have hcounts : starts before = finishes before := by cases mistaken <;> assumption
  by_cases hbefore : before = []
  · subst hbefore
    obtain ⟨rfl, -⟩ := List.cons_eq_cons.mp hfirst
    cases mistaken with
    | finish => cases adds
    | second _ _ mem => cases mem
  · have hopen := closed.within before (step :: behind) rfl hbefore (List.cons_ne_nil _ _)
    omega

end Step

/-! ### The steps of parts -/

namespace Part

/-- What holds of a node whenever it holds of the parts inside it holds of every part. -/
@[elab_as_elim]
theorem induction {motive : Part → Prop} (gap : ∀ text, motive (.gap text))
    (leaf : ∀ name text, motive (.leaf name text)) (token : ∀ text, motive (.token text))
    (node : ∀ name inside, (∀ part ∈ inside, motive part) → motive (.node name inside)) :
    ∀ part, motive part
  | .gap text => gap text
  | .leaf name text => leaf name text
  | .token text => token text
  | .node name inside => node name inside fun part _ => induction gap leaf token node part

/-- The steps of parts come one after the other. -/
theorem stepsAll_append (first second : List Part) :
    stepsAll (first ++ second) = stepsAll first ++ stepsAll second := by
  induction first with
  | nil => rw [stepsAll, List.nil_append, List.nil_append]
  | cons part rest ih => rw [List.cons_append, stepsAll, stepsAll, ih, List.append_assoc]

/-- The steps of a single part are its own. -/
theorem stepsAll_singleton (part : Part) : stepsAll [part] = part.steps := by
  rw [stepsAll, stepsAll, List.append_nil]

/-- Parts finish what they start. -/
theorem starts_steps (part : Part) : Step.starts part.steps = Step.finishes part.steps := by
  induction part using Part.induction with
  | gap text | leaf name text | token text => simp [steps, Step.starts, Step.finishes, Step.isStart]
  | node name inside ih =>
    have hinside : Step.starts (stepsAll inside) = Step.finishes (stepsAll inside) := by
      induction inside with
      | nil => simp [stepsAll]
      | cons part rest ihrest =>
        have hpart := ih part List.mem_cons_self
        have hrest := ihrest fun part mem => ih part (List.mem_cons_of_mem _ mem)
        simp [stepsAll, hpart, hrest]
    simp [steps, Step.starts_cons, Step.finishes_cons, Step.isStart, hinside, Nat.add_comm]

/-- In parts every start has its finish. -/
theorem starts_stepsAll (parts : List Part) :
    Step.starts (stepsAll parts) = Step.finishes (stepsAll parts) := by
  induction parts with
  | nil => simp [stepsAll]
  | cons part rest ih => simp [stepsAll, starts_steps, ih]

/-- The steps of a node begin with the one that adds it. -/
theorem steps_begin {part : Part} (solid : part.isGap = false) :
    ∃ step rest, part.steps = step :: rest ∧ step.addsNode = true := by
  cases part with
  | gap => cases solid
  | leaf | token | node => exact ⟨_, _, rfl, rfl⟩

/-! ### From steps to parts -/

/-- The steps of nodes that are not finished, the innermost first, each with the parts before it. -/
def openSteps : List (List Part × String) → List Step
  | [] => []
  | (before, name) :: outer => openSteps outer ++ stepsAll before ++ [.start name]

/-- Steps without mistakes have built parts inside nodes that are not finished. -/
theorem exists_openSteps {steps : List Step} (faultless : Step.Faultless steps) :
    ∃ (unfinished : List (List Part × String)) (parts : List Part),
      steps = openSteps unfinished ++ stepsAll parts ∧
        unfinished.length + Step.finishes steps = Step.starts steps := by
  induction steps using List.reverseRecOn with
  | nil => exact ⟨[], [], rfl, rfl⟩
  | append_singleton before step ih =>
    obtain ⟨unfinished, parts, hsteps, hcount⟩ := ih faultless.of_append
    -- A step that neither starts nor finishes a node builds a part of its own.
    have hsingle : ∀ part : Part, part.steps = [step] →
        ∃ (unfinished : List (List Part × String)) (parts : List Part),
          before ++ [step] = openSteps unfinished ++ stepsAll parts ∧
            unfinished.length + Step.finishes (before ++ [step]) = Step.starts (before ++ [step]) := by
      intro part hpart
      have hstep : Step.starts [step] = Step.finishes [step] := hpart ▸ starts_steps part
      refine ⟨unfinished, parts ++ [part], ?_, ?_⟩
      · rw [stepsAll_append, stepsAll_singleton, hpart, hsteps, List.append_assoc]
      · rw [Step.finishes_append, Step.starts_append, ← Nat.add_assoc, hcount, hstep]
    cases step with
    | gap text => exact hsingle (.gap text) rfl
    | leaf name text => exact hsingle (.leaf name text) rfl
    | token text => exact hsingle (.token text) rfl
    | start name =>
      refine ⟨(parts, name) :: unfinished, [], ?_, ?_⟩
      · simp [openSteps, stepsAll, hsteps]
      · simp [Step.starts_cons, Step.finishes_cons, Step.isStart]
        omega
    | finish =>
      cases unfinished with
      | nil =>
        have hclosed : Step.starts before = Step.finishes before := by simpa using hcount.symm
        exact absurd (Step.Mistaken.finish hclosed) faultless.last
      | cons innermost outer =>
        -- The node is finished with the parts that have been built inside it.
        obtain ⟨earlier, name⟩ := innermost
        refine ⟨outer, earlier ++ [.node name parts], ?_, ?_⟩
        · simp [hsteps, openSteps, stepsAll_append, stepsAll_singleton, steps]
        · simp [Step.starts_cons, Step.finishes_cons, Step.isStart] at hcount ⊢
          omega

/-- **Steps without mistakes that finish what they start build parts.** -/
theorem exists_stepsAll {steps : List Step} (faultless : Step.Faultless steps)
    (closed : Step.starts steps = Step.finishes steps) : ∃ parts, stepsAll parts = steps := by
  obtain ⟨unfinished, parts, rfl, hcount⟩ := exists_openSteps faultless
  have hnone : unfinished = [] := List.length_eq_zero_iff.mp (by omega)
  subst hnone
  exact ⟨parts, rfl⟩

/-- Where there is a node among the steps, there is one among the parts. -/
theorem exists_root {parts : List Part} {step : Step} (mem : step ∈ stepsAll parts)
    (adds : step.addsNode = true) :
    ∃ before root behind, parts = before ++ root :: behind ∧ root.isGap = false ∧
      ∀ part ∈ before, part.isGap = true := by
  induction parts with
  | nil => simp [stepsAll] at mem
  | cons part rest ih =>
    cases hgap : part.isGap with
    | false => exact ⟨[], part, rest, rfl, hgap, by simp⟩
    | true =>
      have hrest : step ∈ stepsAll rest := by
        rcases List.mem_append.mp mem with hpart | hrest
        · cases part with
          | gap text =>
            obtain rfl := List.mem_singleton.mp hpart
            cases adds
          | leaf | token | node => cases hgap
        · exact hrest
      obtain ⟨before, root, behind, rfl, hroot, hbefore⟩ := ih hrest
      exact ⟨part :: before, root, behind, rfl, hroot, List.forall_mem_cons.mpr ⟨hgap, hbefore⟩⟩

/-- **Parts without mistakes have no more than one root.** -/
theorem isGap_of_faultless {before behind : List Part} {root : Part} (solid : root.isGap = false)
    (faultless : Step.Faultless (stepsAll (before ++ root :: behind))) :
    ∀ part ∈ behind, part.isGap = true := by
  intro part mem
  by_contra hsolid
  obtain ⟨between, rest, rfl⟩ := List.append_of_mem mem
  obtain ⟨first, _, hroot, hfirst⟩ := steps_begin solid
  obtain ⟨second, tail, hpart, hsecond⟩ := steps_begin (Bool.eq_false_iff.mpr hsolid)
  -- The second root begins where all nodes before it are finished.
  have hsplit : stepsAll (before ++ root :: (between ++ part :: rest)) =
      stepsAll (before ++ root :: between) ++ second :: (tail ++ stepsAll rest) := by
    rw [← List.cons_append, ← List.append_assoc, stepsAll_append, stepsAll, hpart, List.cons_append]
  have hmem : first ∈ stepsAll (before ++ root :: between) := by
    rw [stepsAll_append, stepsAll, hroot]
    simp
  exact faultless _ second _ _ hsplit (.second hsecond (starts_stepsAll _) hmem hfirst)

/-- One of the parts is a node, the root, and the others are gaps. -/
def Single (parts : List Part) : Prop :=
  ∃ before root behind, parts = before ++ root :: behind ∧ root.isGap = false ∧
    (∀ part ∈ before, part.isGap = true) ∧ ∀ part ∈ behind, part.isGap = true

/-- Parts without fault that add a node are a single tree between gaps. -/
theorem single_of_faultless {parts : List Part} {step : Step} (faultless : Step.Faultless (stepsAll parts))
    (mem : step ∈ stepsAll parts) (adds : step.addsNode = true) : Single parts := by
  obtain ⟨before, root, behind, rfl, solid, hbefore⟩ := exists_root mem adds
  exact ⟨before, root, behind, rfl, solid, hbefore, isGap_of_faultless solid faultless⟩

/-! ### From parts to trees -/

/-- The steps of a node, without gaps, spell one tree. -/
theorem spellsTree_steps (part : Part) (solid : part.isGap = false) :
    Step.SpellsTree (Step.ungapped part.steps) := by
  induction part using Part.induction with
  | gap text => cases solid
  | leaf name text => exact .leaf name text
  | token text => exact .token text
  | node name inside ih =>
    have hinside : ∃ trees : List (List Step), Step.ungapped (stepsAll inside) = trees.flatten ∧
        ∀ tree ∈ trees, Step.SpellsTree tree := by
      clear solid
      induction inside with
      | nil => exact ⟨[], rfl, by simp⟩
      | cons part rest ihrest =>
        obtain ⟨trees, hrest, htrees⟩ := ihrest fun part mem => ih part (List.mem_cons_of_mem _ mem)
        rw [stepsAll, Step.ungapped_append, hrest]
        cases hgap : part.isGap with
        | false =>
          exact ⟨_ :: trees, rfl, List.forall_mem_cons.mpr ⟨ih part List.mem_cons_self hgap, htrees⟩⟩
        | true =>
          cases part with
          | gap text => exact ⟨trees, rfl, htrees⟩
          | leaf | token | node => cases hgap
    obtain ⟨trees, htrees, hspell⟩ := hinside
    have hsteps : Step.ungapped (steps (.node name inside)) =
        .start name :: (trees.flatten ++ [.finish]) := by
      rw [← htrees, steps, ← List.singleton_append, Step.ungapped_append, Step.ungapped_append]
      rfl
    rw [hsteps]
    exact .node name hspell

/-- Gaps spell nothing. -/
theorem ungapped_gaps {parts : List Part} (gaps : ∀ part ∈ parts, part.isGap = true) :
    Step.ungapped (stepsAll parts) = [] := by
  induction parts with
  | nil => rfl
  | cons part rest ih =>
    rw [stepsAll, Step.ungapped_append, ih fun part mem => gaps part (List.mem_cons_of_mem _ mem)]
    cases part with
    | gap text => rfl
    | leaf | token | node => cases gaps _ List.mem_cons_self

end Part

/-- **Whether steps spell one tree can be told by counting**: they are without mistakes, finish what they
    start, and there is a node among them. -/
theorem Step.spellsTree_iff (steps : List Step) :
    SpellsTree (ungapped steps) ↔
      Faultless steps ∧ starts steps = finishes steps ∧ ∃ step ∈ steps, step.addsNode = true := by
  constructor
  · intro spells
    have hclosed := spells.closed
    refine ⟨hclosed.faultless.of_ungapped, ?_, ?_⟩
    · rw [← starts_ungapped, hclosed.counts, finishes_ungapped]
    · obtain ⟨step, rest, hsteps, adds⟩ := hclosed.begins
      have hmem : step ∈ ungapped steps := by
        rw [hsteps]
        exact List.mem_cons_self
      exact ⟨step, List.mem_of_mem_filter hmem, adds⟩
  · rintro ⟨faultless, closed, step, mem, adds⟩
    obtain ⟨parts, rfl⟩ := Part.exists_stepsAll faultless closed
    obtain ⟨before, root, behind, rfl, solid, hbefore, hbehind⟩ :=
      Part.single_of_faultless faultless mem adds
    rw [Part.stepsAll_append, Part.stepsAll, ungapped_append, ungapped_append,
      Part.ungapped_gaps hbefore, Part.ungapped_gaps hbehind, List.nil_append, List.append_nil]
    exact Part.spellsTree_steps root solid

end BoxTree
