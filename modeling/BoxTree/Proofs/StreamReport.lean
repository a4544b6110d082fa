import BoxTree.Proofs.StreamLevels

namespace BoxTree

/-!
# The report still to come

From any moment of a walk that follows decisions one can tell which lines it will still yield, and with
which error it will end.

* `Report` — lines, and the error that ends them; `Report.entries` — the lines, then the error.
* `Stream.behind`, `Stream.taken` — the report behind a node, and from a node on, by recursion on the
  levels.
* `Stream.remaining` — the report from a moment on.
* `Stream.faithful_advance` — a move leaves the remaining report as it is, or fails at its end.
-/

/-! ### Reports -/

/-- Lines, and the error that ends them. -/
abbrev Report : Type := List Line × Option Error

namespace Report

/-- A report and, unless it ends with an error, another one. -/
def followedBy : Report → Report → Report
  | (lines, some error), _ => (lines, some error)
  | (lines, none), next => (lines ++ next.1, next.2)

/-- A report with other lines. -/
def mapLines (f : List Line → List Line) (report : Report) : Report := (f report.1, report.2)

/-- The lines one after the other, and the error after them. -/
def entries (report : Report) : List (Except Error Line) :=
  report.1.map .ok ++ report.2.toList.map .error

/-- Nothing behind a report leaves the report. -/
theorem followedBy_nil (report : Report) : followedBy report ([], none) = report := by
  obtain ⟨lines, _ | error⟩ := report
  · rw [followedBy, List.append_nil]
  · rfl

/-- It makes no difference which of three reports are joined first. -/
theorem followedBy_assoc (first second third : Report) :
    followedBy (followedBy first second) third = followedBy first (followedBy second third) := by
  obtain ⟨lines, _ | error⟩ := first
  · obtain ⟨more, _ | error⟩ := second
    · simp only [followedBy, List.append_assoc]
    · rfl
  · rfl

/-- Lines can be changed before two reports are joined, or after it. -/
theorem mapLines_followedBy {f : List Line → List Line} (hf : ∀ a b, f (a ++ b) = f a ++ f b)
    (first second : Report) :
    mapLines f (followedBy first second) = followedBy (mapLines f first) (mapLines f second) := by
  obtain ⟨lines, _ | error⟩ := first
  · simp only [followedBy, mapLines, hf]
  · rfl

end Report

open Report

/-! ### Outlines -/

namespace Tree

variable {theme : Theme} {source : String} {decide : Nat → Visibility} {id : Nat} {label : Label}
  {children : List Tree}

/-- A hidden node has no lines. -/
theorem outline_hidden (h : decide id = .hidden) :
    (node id label children).outline theme source decide = ([], none) := by
  rw [outline.eq_def]
  simp only [h]

/-- The line of a collapsed node in an outline is the one that a walk draws. -/
theorem outline_collapsed (h : decide id = .collapsed) :
    (node id label children).outline theme source decide =
      ([collapsedLine theme label.name], none) := by
  rw [outline.eq_def]
  simp only [h]
  rfl

end Tree

namespace Stream

variable {forest : Forest} {decide : Nat → Visibility} {s t : Stream Place} {id parent : Nat}
  {levels outer : List Level} {level : Level}

/-! ### The report still to come -/

section Report

variable (forest : Forest) (theme : Theme) (source : String) (decide : Nat → Visibility)

/-- The report behind a node: its later siblings, then what is behind its parent. -/
def behind : List Level → Nat → Report
  | [], _ => ([], none)
  | _ :: outer, id =>
    followedBy
      (mapLines (List.map (Level.railed theme.tree outer))
        (Tree.outlineAll theme source decide ((forest.later id).map forest.tree)))
      ((forest.parent? id).elim ([], none) (behind outer))

/-- The report from a node on. -/
def taken (levels : List Level) (id : Nat) : Report :=
  followedBy
    (mapLines (boxed forest decide theme.tree levels id)
      ((forest.tree id).outline theme source decide))
    (behind forest theme source decide levels id)

/-- The report from a moment of a walk on. -/
def remaining (s : Stream Place) : Report :=
  followedBy (s.pending, none)
    (match s.task with
    | .visit => taken forest s.theme s.source decide s.levels s.cursor.id
    | .onward => behind forest s.theme s.source decide s.levels s.cursor.id
    | .stop => ([], none))

end Report

variable {theme : Theme} {source : String}

/-- The outline of siblings is the branch of the first, followed by the outline of the others. -/
theorem outlineAll_cons (linked : forest.Linked) (id : Nat) :
    Tree.outlineAll theme source decide ((id :: forest.later id).map forest.tree) =
      followedBy
        (mapLines (branched theme.tree (lastShown forest decide id))
          ((forest.tree id).outline theme source decide))
        (Tree.outlineAll theme source decide ((forest.later id).map forest.tree)) := by
  have hlast : ((forest.later id).map forest.tree).all (fun tree => decide tree.id = .hidden) =
      lastShown forest decide id := by
    rw [List.all_map, lastShown]
    simp only [Function.comp_def, linked.tree_id]
  -- Only an error in the first outline keeps the others from being drawn.
  rw [List.map_cons, Tree.outlineAll, hlast]
  rcases (forest.tree id).outline theme source decide with ⟨lines, _ | error⟩ <;> rfl

/-- What is behind a node with a later sibling is what comes from the sibling on. -/
theorem followedBy_eq_taken (linked : forest.Linked) (hparent : forest.parent? id = some parent)
    (level : Level) (outer : List Level) :
    followedBy
        (mapLines (List.map (Level.railed theme.tree outer))
          (Tree.outlineAll theme source decide ((id :: forest.later id).map forest.tree)))
        (behind forest theme source decide outer parent) =
      taken forest theme source decide (level :: outer) id := by
  rw [outlineAll_cons linked, mapLines_followedBy (fun _ _ => List.map_append), followedBy_assoc, taken,
    behind, hparent]
  rfl

/-- The lines of a node that is entered are its own line, followed by those of its children. -/
theorem taken_enter (linked : forest.Linked) {child : Nat} {rest : List Nat}
    (hchildren : forest.childList id = child :: rest) (hshown : decide id = .shown)
    (framed : Framed forest decide levels id) :
    taken forest theme source decide levels id =
      followedBy
        (boxed forest decide theme.tree levels id [openLine theme (forest.label id).name], none)
        (taken forest theme source decide ({} :: levels) child) := by
  obtain ⟨hparent, hlater⟩ := linked.later_of_childList hchildren
  have houtline : (forest.tree id).outline theme source decide =
      followedBy ([openLine theme (forest.label id).name], none)
        (Tree.outlineAll theme source decide ((child :: forest.later child).map forest.tree)) := by
    rw [linked.tree_eq, hchildren, hlater, List.map_cons, Tree.outline, hshown]
    rfl
  -- The first line of the node and those of its children are in the same box.
  rw [← followedBy_eq_taken linked hparent, ← followedBy_assoc, taken, houtline]
  congr 1
  generalize Tree.outlineAll theme source decide _ = report
  obtain ⟨lines, error⟩ := report
  exact congrArg (·, error) (boxed_cons framed theme.tree _ lines)

/-- Only the outer levels matter to the report. -/
theorem behind_congr {levels' : List Level} (hlength : levels'.length = levels.length)
    (htail : levels'.tail = levels.tail) (id : Nat) :
    behind forest theme source decide levels' id = behind forest theme source decide levels id := by
  cases levels <;> cases levels' <;> simp_all [behind]

/-- Only the outer levels matter to what comes from a node on. -/
theorem taken_congr {levels' : List Level} (hlength : levels'.length = levels.length)
    (htail : levels'.tail = levels.tail) (id : Nat) :
    taken forest theme source decide levels' id = taken forest theme source decide levels id := by
  rw [taken, taken, boxed_congr hlength htail, behind_congr hlength htail]

/-! ### Moves keep the remaining report -/

/-- A walk on a node of the forest, whose levels know about the siblings behind the node. -/
structure Ready (forest : Forest) (decide : Nat → Visibility) (s : Stream Place) : Prop where
  inForest : s.cursor.forest = forest
  known : match s.task with
    | .visit => Known forest decide s.levels s.cursor.id (s.cursor.id :: forest.later s.cursor.id)
    | .onward => Known forest decide s.levels s.cursor.id (forest.later s.cursor.id)
    | .stop => True

/-- A move that leaves the remaining report as it is, or fails where that is what is left of the
    report. -/
structure Faithful (forest : Forest) (decide : Nat → Visibility) (s : Stream Place)
    (result : Stream Place × Option Error) : Prop where
  ready : Ready forest decide result.1
  report : remaining forest decide s =
    match result.2 with
    | none => remaining forest decide result.1
    | some error => (s.pending, some error)
  stopped : result.2 ≠ none → result.1.task = .stop ∧ result.1.pending = s.pending

/-- Drawing after a decision draws as if the decision had been there before. -/
theorem Decided.drawn {lines : List Line} (decided : Decided forest decide s t id) {u : Stream Place}
    (drawn : Drawn forest decide t u id lines) : Drawn forest decide s u id lines where
  spot := decided.spot.trans drawn.spot
  pending := by
    rw [drawn.pending, decided.pending, theme_of_settings decided.spot.settings,
      boxed_congr decided.spot.depth decided.tail]
  tail := drawn.tail.trans decided.tail
  framed := drawn.framed

/-- What comes from the node of a walk on. -/
theorem remaining_visit (hcursor : s.cursor = ⟨forest, id⟩) (htask : s.task = .visit) :
    remaining forest decide s =
      followedBy (s.pending, none) (taken forest s.theme s.source decide s.levels id) := by
  rw [remaining, htask, hcursor]

/-- A walk that goes on has the pending lines left, and what is behind its node. -/
theorem remaining_onward (hcursor : s.cursor = ⟨forest, id⟩) (htask : s.task = .onward) :
    remaining forest decide s =
      followedBy (s.pending, none) (behind forest s.theme s.source decide s.levels id) := by
  rw [remaining, htask, hcursor]

/-- A node all of whose lines have been drawn leaves what is behind it. -/
theorem faithful_done {lines : List Line} (spot : SameSpot s t)
    (pending : t.pending = s.pending ++ boxed forest decide s.theme.tree s.levels id lines)
    (tail : t.levels.tail = s.levels.tail) (known : Known forest decide t.levels id (forest.later id))
    (hcursor : s.cursor = ⟨forest, id⟩) (htask : s.task = .visit)
    (houtline : (forest.tree id).outline s.theme s.source decide = (lines, none)) :
    Faithful forest decide s ({ t with task := .onward }, none) := by
  have hsame : t.cursor = ⟨forest, id⟩ := spot.cursor.trans hcursor
  refine ⟨⟨congrArg Place.forest hsame, ?_⟩, ?_, fun h => absurd rfl h⟩
  · show Known forest decide t.levels t.cursor.id (forest.later t.cursor.id)
    rw [hsame]
    exact known
  · show _ = followedBy (t.pending, none) (behind forest t.theme t.source decide t.levels t.cursor.id)
    rw [remaining_visit hcursor htask, taken, houtline, pending, hsame,
      theme_of_settings spot.settings, source_of_settings spot.settings,
      behind_congr spot.depth tail, ← followedBy_assoc]
    rfl

/-- Drawing the own line of a node leaves what comes from its first child on. -/
theorem Drawn.entered (linked : forest.Linked) {child : Nat} {rest : List Nat}
    (drawn : Drawn forest decide s t id [openLine s.theme (forest.label id).name])
    (hcursor : s.cursor = ⟨forest, id⟩) (htask : s.task = .visit)
    (hchildren : forest.childList id = child :: rest) (hshown : decide id = .shown) :
    Faithful forest decide s
      ({ t with cursor := ⟨forest, child⟩, levels := {} :: t.levels, task := .visit }, none) := by
  obtain ⟨hparent, hlater⟩ := linked.later_of_childList hchildren
  refine ⟨⟨rfl, ?_⟩, ?_, fun h => absurd rfl h⟩
  · exact ⟨List.nil_prefix, id, hparent, drawn.framed⟩
  · show _ = followedBy (t.pending, none) (taken forest t.theme t.source decide ({} :: t.levels) child)
    rw [remaining_visit hcursor htask, drawn.pending, theme_of_settings drawn.spot.settings,
      source_of_settings drawn.spot.settings,
      ← taken_congr drawn.spot.depth drawn.tail, taken_enter linked hchildren hshown drawn.framed,
      ← followedBy_assoc, boxed_congr drawn.spot.depth drawn.tail]
    rfl

/-- A leaf that cannot be read is where the report ends. -/
theorem Decided.unreadable (linked : forest.Linked) {error : Error}
    (decided : Decided forest decide s t id) (hcursor : s.cursor = ⟨forest, id⟩)
    (htask : s.task = .visit) (hleaf : forest.childList id = []) (hshown : decide id = .shown)
    (hslice : Text.slice s.source (forest.label id).start (forest.label id).stop = .error error) :
    Faithful forest decide s (t.lookAhead.abandon, some error) := by
  have hsame : t.lookAhead.cursor = ⟨forest, id⟩ :=
    (sameSpot_lookAhead t).cursor.trans (decided.spot.cursor.trans hcursor)
  have houtline : (forest.tree id).outline s.theme s.source decide = ([], some error) := by
    rw [linked.tree_eq, hleaf, List.map_nil, Tree.outline, hshown]
    simp only [hslice]
  refine ⟨⟨?_, trivial⟩, ?_, fun _ => ⟨rfl, (pending_lookAhead t).trans decided.pending⟩⟩
  · show (Cursor.climb _ t.lookAhead.cursor).forest = forest
    rw [Place.forest_climb, hsame]
  · show _ = (s.pending, some error)
    rw [remaining_visit hcursor htask, taken, houtline, mapLines, boxed_nil]
    simp only [followedBy, List.append_nil]

/-- A leaf has a line at least. -/
theorem exists_childlessLines (theme : Theme) (name text : String) :
    ∃ first rest, childlessLines theme name text = first :: rest := by
  unfold childlessLines
  split
  · exact ⟨_, _, rfl⟩
  · split <;> exact ⟨_, _, rfl⟩

/-- A decision that a ready walk has made, and looked ahead from, is the decision on its node. -/
theorem Ready.decided (ready : Ready forest decide s) (hcursor : s.cursor = ⟨forest, id⟩)
    (htask : s.task = .visit) {decision : Visibility} (hd : s.decide = (decision, t))
    (agrees : t.Agrees decide ∨ t.lookAhead.Agrees decide) :
    decide id = decision ∧ Decided forest decide s t id := by
  have hknown := ready.known
  rw [htask, hcursor] at hknown
  have hagrees : t.Agrees decide := by
    obtain h | h := agrees
    · exact h
    · have hspot := sameSpot_lookAhead t
      exact h.of_continues ⟨hspot.settings, hspot.asked⟩
  have h := Stream.decided hcursor hknown (by rw [hd]; exact hagrees)
  rw [hd] at h
  exact ⟨h.1.symm, h.2⟩

/-- What a ready walk draws of a node is drawn in its boxes. -/
theorem Ready.drawn (linked : forest.Linked) (ready : Ready forest decide s)
    (hcursor : s.cursor = ⟨forest, id⟩) (htask : s.task = .visit) {decision : Visibility}
    (hd : s.decide = (decision, t)) (agrees : t.lookAhead.Agrees decide) (first : Line)
    (rest : List Line) :
    Drawn forest decide s (t.lookAhead.draw (first :: rest)) id (first :: rest) := by
  obtain ⟨-, h⟩ := ready.decided hcursor htask hd (.inr agrees)
  exact h.drawn (drawn_lookAhead linked (h.spot.cursor.trans hcursor) h.known agrees first rest)

/-- Taking a node is faithful. -/
theorem faithful_visit (linked : forest.Linked) (htask : s.task = .visit)
    (ready : Ready forest decide s) (agrees : (checked s.visit).1.Agrees decide) :
    Faithful forest decide s (checked s.visit) := by
  obtain ⟨id, hcursor⟩ := Place.exists_eq_mk ready.inForest
  have hlabel : Cursor.label s.cursor = forest.label id := by
    rw [hcursor]
    rfl
  have hvisited := visited s
  generalize s.visit = result at agrees hvisited ⊢
  -- `agrees` is about the stream after the move, which has asked as much as after looking ahead.
  cases hvisited with
  | @hidden t hd =>
    obtain ⟨hhidden, h⟩ := ready.decided hcursor htask hd (.inl agrees)
    have hlines : t.pending = s.pending ++ boxed forest decide s.theme.tree s.levels id [] := by
      rw [h.pending, boxed_nil, List.append_nil]
    -- A hidden node has an empty outline.
    refine faithful_done h.spot hlines h.tail h.known hcursor htask ?_
    rw [linked.tree_eq, Tree.outline_hidden hhidden]
  | @collapsed t hd =>
    have hcollapsed := (ready.decided hcursor htask hd (.inr agrees)).1
    have drawn := ready.drawn linked hcursor htask hd agrees
      (collapsedLine s.theme (Cursor.label s.cursor).name) []
    refine faithful_done drawn.spot drawn.pending drawn.tail drawn.framed.known hcursor htask ?_
    rw [linked.tree_eq, Tree.outline_collapsed hcollapsed, hlabel]
  | @entered t child hd hchild =>
    have hshown := (ready.decided hcursor htask hd (.inr agrees)).1
    have drawn := ready.drawn linked hcursor htask hd agrees
      (openLine s.theme (Cursor.label s.cursor).name) []
    rw [hcursor] at hchild
    obtain ⟨first, rest, rfl, hchildren, -, -⟩ := Place.firstChild?_eq_some linked hchild
    rw [hlabel] at drawn ⊢
    exact drawn.entered linked hcursor htask hchildren hshown
  | @read t text hd hchild hslice =>
    have hshown := (ready.decided hcursor htask hd (.inr agrees)).1
    obtain ⟨first, rest, hlines⟩ :=
      exists_childlessLines s.theme (Cursor.label s.cursor).name text
    have drawn := ready.drawn linked hcursor htask hd agrees first rest
    rw [← hlines] at drawn
    -- A node without children has no trees below it.
    rw [hcursor, Place.firstChild?_eq_none] at hchild
    refine faithful_done drawn.spot drawn.pending drawn.tail drawn.framed.known hcursor htask ?_
    rw [hlabel] at hslice ⊢
    rw [linked.tree_eq, hchild, List.map_nil, Tree.outline, hshown]
    simp only [hslice]
  | @unreadable t error hd hchild hslice =>
    obtain ⟨hshown, h⟩ := ready.decided hcursor htask hd (.inr agrees)
    rw [hcursor, Place.firstChild?_eq_none] at hchild
    rw [hlabel] at hslice
    exact h.unreadable linked hcursor htask hchild hshown hslice

/-- Going to the next sibling leaves what comes from there on. -/
theorem Known.toSibling (linked : forest.Linked) {sibling : Nat} {rest : List Nat}
    (known : Known forest decide s.levels id (forest.later id)) (hcursor : s.cursor = ⟨forest, id⟩)
    (htask : s.task = .onward) (hlevels : s.levels = level :: outer)
    (hlater : forest.later id = sibling :: rest) :
    Faithful forest decide s ({ s with cursor := ⟨forest, sibling⟩, task := .visit }, none) := by
  obtain ⟨hsame, hrest⟩ := linked.later_of_later hlater
  rw [hlevels] at known
  obtain ⟨hahead, parent, hparent, houter⟩ := known
  have hforward : forest.parent? sibling = some parent := hsame.trans hparent
  refine ⟨⟨rfl, ?_⟩, ?_, fun h => absurd rfl h⟩
  · show Known forest decide s.levels sibling (sibling :: forest.later sibling)
    rw [hlevels, hrest, ← hlater]
    exact ⟨hahead, parent, hforward, houter⟩
  · show _ = followedBy (s.pending, none) (taken forest s.theme s.source decide s.levels sibling)
    rw [remaining_onward hcursor htask, hlevels, behind, hparent, hlater, ← hrest,
      ← followedBy_eq_taken linked hforward]
    rfl

/-- Going back to the parent from its last child leaves what is behind the parent. -/
theorem Known.toParent (known : Known forest decide s.levels id (forest.later id))
    (hcursor : s.cursor = ⟨forest, id⟩) (htask : s.task = .onward) (hlevels : s.levels = level :: outer)
    (hlater : forest.later id = []) (hparent : forest.parent? id = some parent) :
    Faithful forest decide s ({ s with cursor := ⟨forest, parent⟩, levels := outer }, none) := by
  rw [hlevels] at known
  obtain ⟨-, above, habove, houter⟩ := known
  obtain rfl := Option.some.inj (habove.symm.trans hparent)
  refine ⟨⟨rfl, ?_⟩, ?_, fun h => absurd rfl h⟩
  · simp only [htask]
    exact houter.known
  · rw [remaining_onward hcursor htask, hlevels, behind, hlater, hparent]
    simp only [remaining, htask]
    rfl

/-- Going on is faithful. -/
theorem faithful_onward (linked : forest.Linked) (htask : s.task = .onward)
    (ready : Ready forest decide s) : Faithful forest decide s (checked s.onward) := by
  obtain ⟨id, hcursor⟩ := Place.exists_eq_mk ready.inForest
  have hknown : Known forest decide s.levels id (forest.later id) := by
    have h := ready.known
    rw [htask, hcursor] at h
    exact h
  have hleft := left s
  generalize s.onward = result at hleft ⊢
  cases hleft with
  | ended hlevels =>
    refine ⟨⟨ready.inForest, trivial⟩, ?_, fun h => absurd rfl h⟩
    rw [remaining_onward hcursor htask, hlevels]
    rfl
  | @toSibling level outer next hlevels hbeside =>
    rw [hcursor] at hbeside
    obtain ⟨sibling, rest, rfl, hlater, -, -⟩ := Place.nextSibling?_eq_some linked hbeside
    exact hknown.toSibling linked hcursor htask hlevels hlater
  | @toParent level outer above hlevels hbeside habove =>
    rw [hcursor] at hbeside habove
    obtain ⟨parent, hparent, rfl⟩ := Place.parent?_eq_some.mp habove
    exact hknown.toParent hcursor htask hlevels (Place.nextSibling?_eq_none.mp hbeside) hparent
  | @strayed level outer hlevels hbeside habove =>
    -- A node inside of a level has a parent.
    rw [hlevels] at hknown
    obtain ⟨-, parent, hparent, -⟩ := hknown
    rw [hcursor, Place.parent?_eq_none, hparent] at habove
    cases habove

/-- **Every move is faithful.** -/
theorem faithful_advance (linked : forest.Linked) (ready : Ready forest decide s)
    (agrees : s.advance.1.Agrees decide) : Faithful forest decide s s.advance := by
  have hcounted : Ready forest decide { s with moves := s.moves - 1 } := ⟨ready.inForest, ready.known⟩
  cases htask : s.task with
  | visit =>
    rw [advance_visit htask] at agrees ⊢
    have h := faithful_visit (s := { s with moves := s.moves - 1 }) linked htask hcounted agrees
    exact ⟨h.ready, h.report, h.stopped⟩
  | onward =>
    rw [advance_onward htask]
    have h := faithful_onward (s := { s with moves := s.moves - 1 }) linked htask hcounted
    exact ⟨h.ready, h.report, h.stopped⟩
  | stop =>
    rw [advance_stop htask]
    exact ⟨hcounted, rfl, fun h => absurd rfl h⟩

end Stream

end BoxTree
