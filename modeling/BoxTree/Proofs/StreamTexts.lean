import BoxTree.Proofs.StreamConsumed

namespace BoxTree

/-!
# The texts of a walk

Colours have no say in a walk. Two walks that differ only in their themes put the same questions, take the
same moves and draw lines of the same texts.

* `SameTexts` — lines that differ only in their paints.
* `Stream.Repainted` — walks that differ only in their colours.
* `Stream.Repainted.advance`, `Stream.Repainted.next` — they stay so, move by move and line by line.
* `Stream.Repainted.report` — what two such walks yield.
-/

/-- Lines of the same texts, whatever they are painted with. -/
def SameTexts (first second : List Line) : Prop := first.map Line.plain = second.map Line.plain

/-- Lines of the same texts in two parts are lines of the same texts. -/
theorem SameTexts.append {first second third fourth : List Line} (before : SameTexts first second)
    (behind : SameTexts third fourth) : SameTexts (first ++ third) (second ++ fourth) := by
  unfold SameTexts at *
  rw [List.map_append, List.map_append, before, behind]

/-! ### Lines of a node -/

/-- The theme has no say in the texts of rows. -/
theorem sameTexts_rowLines (theme other : Theme) (rows : List (List Char)) :
    SameTexts (rowLines theme rows) (rowLines other rows) := by
  induction rows with
  | nil => rfl
  | cons row rest ih =>
    cases rest with
    | nil => rfl
    | cons next rest => exact congrArg (_ :: ·) ih

/-- The theme has no say in the texts of a node without children. -/
theorem sameTexts_childlessLines (theme other : Theme) (name text : String) :
    SameTexts (childlessLines theme name text) (childlessLines other name text) := by
  unfold childlessLines
  split
  · rfl
  · split
    · have hrows := (sameTexts_rowLines theme other (Text.splitRows text.toList)).append
        (show SameTexts [⟨[.colored (indent ++ quotesText) theme.quotes]⟩]
          [⟨[.colored (indent ++ quotesText) other.quotes]⟩] from rfl)
      exact congrArg (_ :: ·) hrows
    · rfl

/-- The boxes around lines are the same in all colours. -/
theorem sameTexts_draw (tree other : Color) (levels : List Level) {first second : List Line}
    (same : SameTexts first second) :
    SameTexts (Level.draw tree levels first).1 (Level.draw other levels second).1 ∧
      (Level.draw tree levels first).2 = (Level.draw other levels second).2 := by
  induction first generalizing levels second with
  | nil =>
    obtain rfl : second = [] := List.map_eq_nil_iff.mp same.symm
    exact ⟨rfl, rfl⟩
  | cons line rest ih =>
    obtain ⟨line', rest', rfl, hline, hrest⟩ := List.map_eq_cons_iff.mp same.symm
    obtain ⟨hdrawn, hlevels⟩ := ih (levels.map Level.begin) hrest.symm
    have hboxed : ∀ (color : Color) (line : Line),
        Line.plain ⟨Level.connectors color levels ++ line.segments⟩ =
          String.join (levels.reverse.map Level.connector) ++ line.plain := by
      intro color line
      unfold Line.plain Level.connectors
      rw [List.map_append, List.map_map, String.join_append]
      rfl
    refine ⟨?_, hlevels⟩
    show _ :: _ = _ :: _
    rw [hboxed, hboxed, hline]
    exact congrArg (_ :: ·) hdrawn

namespace Stream

variable {κ : Type} {s t : Stream κ} {α : Type}

/-! ### Walks in step -/

/-- A walk in another theme, with other lines pending. -/
def repaint (s : Stream κ) (theme : Theme) (pending : List Line) : Stream κ := { s with theme, pending }

/-- The second walk is the first one in other colours. -/
def Repainted (s t : Stream κ) : Prop :=
  ∃ theme pending, t = s.repaint theme pending ∧ SameTexts s.pending pending

/-- The same result of two walks that differ only in their colours, and still do after it. -/
def InStep (first second : Stream κ × α) : Prop :=
  Repainted first.1 second.1 ∧ first.2 = second.2

/-- Whatever does not touch the colours keeps walks in step. -/
theorem Repainted.map {f : Stream κ → Stream κ}
    (colorless : ∀ s theme pending, f (repaint s theme pending) = (f s).repaint theme pending)
    (keeps : ∀ s, (f s).pending = s.pending) (same : Repainted s t) : Repainted (f s) (f t) := by
  obtain ⟨theme, pending, rfl, hpending⟩ := same
  refine ⟨theme, pending, colorless s theme pending, ?_⟩
  rwa [keeps]

/-- Drawing lines of the same texts keeps walks in step. -/
theorem Repainted.draw {first second : List Line} (same : Repainted s t)
    (lines : SameTexts first second) : Repainted (s.draw first) (t.draw second) := by
  obtain ⟨theme, pending, rfl, hpending⟩ := same
  obtain ⟨hdrawn, hlevels⟩ := sameTexts_draw s.theme.tree theme.tree s.levels lines
  refine ⟨theme, pending ++ (Level.draw theme.tree s.levels second).1, ?_, hpending.append hdrawn⟩
  unfold Stream.draw repaint
  dsimp only
  rw [hlevels]

/-- A line is pending in all colours, or in none. -/
theorem Repainted.pending (same : Repainted s t) :
    (s.pending = [] ∧ t.pending = []) ∨
      ∃ line line' rest rest', s.pending = line :: rest ∧ t.pending = line' :: rest' ∧
        line.plain = line'.plain ∧
        Repainted { s with pending := rest } { t with pending := rest' } := by
  obtain ⟨theme, pending, rfl, hpending⟩ := same
  cases h : s.pending with
  | nil =>
    rw [h] at hpending
    exact .inl ⟨rfl, List.map_eq_nil_iff.mp hpending.symm⟩
  | cons line rest =>
    rw [h] at hpending
    obtain ⟨line', rest', rfl, hline, hrest⟩ := List.map_eq_cons_iff.mp hpending.symm
    exact .inr ⟨line, line', rest, rest', rfl, rfl, hline.symm, theme, rest', rfl, hrest.symm⟩

variable [Cursor κ]

/-- A decision is the same in all colours. -/
theorem Repainted.decide (same : Repainted s t) :
    Repainted s.decide.2 t.decide.2 ∧ s.decide.1 = t.decide.1 := by
  have hrepaint : ∀ (s : Stream κ) theme pending,
      (s.repaint theme pending).decide = (s.decide.1, s.decide.2.repaint theme pending) := by
    rintro ⟨_, _, _, _, _, levels, _, _, _⟩ theme pending
    match levels with
    | [] | ⟨_, _, []⟩ :: _ | ⟨_, _, _ :: _⟩ :: _ => rfl
  refine ⟨same.map (f := fun s => s.decide.2) ?_ fun s => ?_, ?_⟩
  · exact fun s theme pending => congrArg Prod.snd (hrepaint s theme pending)
  · unfold Stream.decide
    split <;> rfl
  · obtain ⟨theme, pending, rfl, -⟩ := same
    rw [hrepaint]

/-- Looking ahead keeps walks in step. -/
theorem Repainted.lookAhead (same : Repainted s t) : Repainted s.lookAhead t.lookAhead := by
  refine same.map (fun s theme pending => ?_) pending_lookAhead
  obtain ⟨_, _, _, _, _, levels, _, _, _⟩ := s
  cases levels <;> rfl

/-! ### One move -/

/-- A node that is shown has lines of the same texts in all colours. -/
theorem Repainted.present (same : Repainted s t) : InStep s.present t.present := by
  have hdraw : ∀ lines : Theme → List Line, (∀ theme other, SameTexts (lines theme) (lines other)) →
      Repainted (s.draw (lines s.theme)) (t.draw (lines t.theme)) :=
    fun lines hlines => same.draw (hlines _ _)
  have hcursor : t.cursor = s.cursor := by
    obtain ⟨theme, pending, rfl, -⟩ := same
    rfl
  have hsource : t.source = s.source := by
    obtain ⟨theme, pending, rfl, -⟩ := same
    rfl
  unfold Stream.present
  rw [hcursor, hsource]
  dsimp only
  split
  · next child _ =>
    have hdrawn := hdraw (fun theme => [openLine theme (Cursor.label s.cursor).name]) fun _ _ => rfl
    exact ⟨hdrawn.map (f := fun s => { s with
      cursor := child, levels := {} :: s.levels, task := .visit }) (fun _ _ _ => rfl) fun _ => rfl, rfl⟩
  · split
    · exact ⟨same, rfl⟩
    · next text _ =>
      have hdrawn := hdraw (fun theme => childlessLines theme (Cursor.label s.cursor).name text)
        fun _ _ => sameTexts_childlessLines _ _ _ _
      exact ⟨hdrawn.map (f := fun s => { s with task := .onward }) (fun _ _ _ => rfl) fun _ => rfl, rfl⟩

/-- Nodes are taken in step. -/
theorem Repainted.visit (same : Repainted s t) : InStep s.visit t.visit := by
  have honward : ∀ {s t : Stream κ}, Repainted s t →
      Repainted { s with task := .onward } { t with task := .onward } :=
    fun same => same.map (f := fun s => { s with task := .onward }) (fun _ _ _ => rfl) fun _ => rfl
  obtain ⟨hdecided, hdecision⟩ := same.decide
  unfold Stream.visit
  generalize s.decide = first, t.decide = second at hdecided hdecision
  obtain ⟨decision, after⟩ := first
  obtain ⟨_, after'⟩ := second
  obtain rfl : decision = _ := hdecision
  have hlook : Repainted after.lookAhead after'.lookAhead := Repainted.lookAhead hdecided
  cases decision with
  | hidden => exact ⟨honward hdecided, rfl⟩
  | collapsed =>
    have hcursor : after'.lookAhead.cursor = after.lookAhead.cursor := by
      obtain ⟨theme, pending, heq, -⟩ := hlook
      rw [heq]
      rfl
    dsimp only
    rw [hcursor]
    exact ⟨honward (hlook.draw rfl), rfl⟩
  | shown => exact hlook.present

/-- Nodes are left in step. -/
theorem Repainted.onward (same : Repainted s t) : InStep s.onward t.onward := by
  obtain ⟨theme, pending, rfl, hpending⟩ := same
  obtain ⟨cursor, _, _, _, _, levels, _, _, _⟩ := s
  unfold Stream.onward repaint
  cases levels with
  | nil => exact ⟨⟨theme, pending, rfl, hpending⟩, rfl⟩
  | cons level outer =>
    dsimp only
    cases Cursor.nextSibling? cursor with
    | some next => exact ⟨⟨theme, pending, rfl, hpending⟩, rfl⟩
    | none => cases Cursor.parent? cursor <;> exact ⟨⟨theme, pending, rfl, hpending⟩, rfl⟩

/-- Walks in step are given up in step. -/
theorem InStep.checked {first second : Stream κ × Option Error} (same : InStep first second) :
    InStep (checked first) (checked second) := by
  obtain ⟨s, error⟩ := first
  obtain ⟨t, _⟩ := second
  obtain ⟨hsame, rfl⟩ : Repainted s t ∧ error = _ := same
  cases error with
  | none => exact ⟨hsame, rfl⟩
  | some error => exact ⟨hsame.map (f := abandon) (fun _ _ _ => rfl) fun _ => rfl, rfl⟩

/-- **One move** is the same in all colours. -/
theorem Repainted.advance (same : Repainted s t) : InStep s.advance t.advance := by
  have hcounted : Repainted { s with moves := s.moves - 1 } { t with moves := t.moves - 1 } :=
    same.map (f := fun s => { s with moves := s.moves - 1 }) (fun _ _ _ => rfl) fun _ => rfl
  have htask : t.task = s.task := by
    obtain ⟨theme, pending, rfl, -⟩ := same
    rfl
  cases h : s.task with
  | visit =>
    rw [advance_visit h, advance_visit (htask.trans h)]
    exact hcounted.visit.checked
  | onward =>
    rw [advance_onward h, advance_onward (htask.trans h)]
    exact hcounted.onward.checked
  | stop =>
    rw [advance_stop h, advance_stop (htask.trans h)]
    exact ⟨hcounted, rfl⟩

/-! ### Lines -/

/-- What an answer says: the text of a line, or the error. -/
def textOf (answer : Option (Except Error Line)) : Option (Except Error String) :=
  answer.map (Except.map Line.plain)

/-- The search for a line finds the same text in all colours. -/
theorem Repainted.search (same : Repainted s t) (fuel : Nat) :
    Repainted (search fuel s).2 (search fuel t).2 ∧
      textOf (search fuel s).1 = textOf (search fuel t).1 := by
  induction fuel generalizing s t with
  | zero =>
    obtain ⟨hs, ht⟩ | ⟨line, line', rest, rest', hs, ht, hline, hrest⟩ := same.pending
    · rw [search_zero hs, search_zero ht]
      exact ⟨same, rfl⟩
    · rw [search_pending 0 hs, search_pending 0 ht]
      exact ⟨hrest, congrArg (fun text => some (Except.ok text)) hline⟩
  | succ fuel ih =>
    obtain ⟨hs, ht⟩ | ⟨line, line', rest, rest', hs, ht, hline, hrest⟩ := same.pending
    · have htask : t.task = s.task := by
        obtain ⟨theme, pending, rfl, -⟩ := same
        rfl
      by_cases hstop : s.task = .stop
      · rw [search_stop _ hs hstop, search_stop _ ht (htask.trans hstop)]
        exact ⟨same, rfl⟩
      · obtain ⟨hmoved, herror⟩ := same.advance
        rcases hmove : s.advance with ⟨after, error⟩
        rcases hmove' : t.advance with ⟨after', _⟩
        rw [hmove, hmove'] at hmoved herror
        obtain rfl : error = _ := herror
        cases error with
        | none =>
          rw [search_moved fuel hs hstop hmove, search_moved fuel ht (htask ▸ hstop) hmove']
          exact ih hmoved
        | some error =>
          rw [search_failed fuel hs hstop hmove, search_failed fuel ht (htask ▸ hstop) hmove']
          exact ⟨hmoved, rfl⟩
    · rw [search_pending _ hs, search_pending _ ht]
      exact ⟨hrest, congrArg (fun text => some (Except.ok text)) hline⟩

/-- **The next line** has the same text in all colours. -/
theorem Repainted.next (same : Repainted s t) :
    Repainted s.next.2 t.next.2 ∧ textOf s.next.1 = textOf t.next.1 := by
  have hmoves : t.moves = s.moves := by
    obtain ⟨theme, pending, rfl, -⟩ := same
    rfl
  unfold Stream.next
  rw [hmoves]
  exact same.search _

/-- **Whatever colours a walk has**, it yields lines of the same texts, and ends with the same error. -/
theorem Repainted.report {lines others : List Line} {error failure : Option Error}
    (same : Repainted s t) (first : s.Yields (Report.entries (lines, error)))
    (second : t.Yields (Report.entries (others, failure))) :
    SameTexts lines others ∧ error = failure := by
  induction lines generalizing s t others with
  | nil =>
    have hnext := same.next.2
    rw [first.next.1, second.next.1] at hnext
    cases others <;> cases error <;> cases failure <;> cases hnext <;> exact ⟨rfl, rfl⟩
  | cons line rest ih =>
    have hnext := same.next.2
    rw [first.next.1, second.next.1] at hnext
    cases others with
    | nil => cases failure <;> cases hnext
    | cons other others =>
      obtain ⟨htexts, herror⟩ := ih same.next.1 first.next.2 second.next.2
      have hline : line.plain = other.plain := Except.ok.inj (Option.some.inj hnext)
      refine ⟨?_, herror⟩
      unfold SameTexts
      rw [List.map_cons, List.map_cons, hline, htexts]

/-- A walk may begin in any colours. -/
theorem repainted_start (cursor : κ) (source : String) (theme other : Theme) (filter : Filter) :
    Repainted (start cursor source theme filter) (start cursor source other filter) :=
  ⟨other, [], rfl, rfl⟩

end Stream

end BoxTree
