import BoxTree.Proofs.PeekShortcut
import BoxTree.Proofs.TreeCourse

namespace BoxTree

/-!
# Walks that run out of climbs

A cursor that climbs only so often leaves a walk as it is up to the first climb too many. There the walk
ends with an error that names the node on which the cursor is stuck.

* `cut` — the entries that come out along a course before the climbs run out.
* `Stream.courseLeft` — the course of a walk from a moment on.
* `Stream.Climbing` — a walk that has so many climbs left; `Stream.due` — the entries that it will yield.
* `Stream.Climbing.spent_advance`, `Stream.Climbing.pulled` — every move leaves them as they are, and every
  call takes the first.
* `Stream.Follows.yields_limited` — a walk yields the outline up to the climb that fails.
* `walk_ends_when_climbs_run_out` — all calls of a walk.
-/

open Report

/-! ### Entries along a course -/

/-- What a walk reports that is stuck below a node: the name of the last child. -/
def Forest.stray (forest : Forest) (id : Nat) : Error :=
  .strayCursor (forest.label ((forest.childList id).getLastD id)).name

section Cut

variable {stray : Nat → Error} {x : Nat}

/-- The entries that come out along a course with so many climbs. The first climb too many ends them with
    an error. -/
def cut (stray : Nat → Error) : Nat → List Mark → List (Except Error Line) → List (Except Error Line)
  | _, [], entries => entries
  | 0, .climbed x :: _, _ => [.error (stray x)]
  | climbs + 1, .climbed _ :: rest, entries => cut stray climbs rest entries
  | climbs, .drawn _ :: rest, .ok line :: entries => .ok line :: cut stray climbs rest entries
  | _, .drawn _ :: _, .error error :: _ => [.error error]
  | climbs, .drawn _ :: rest, [] => cut stray climbs rest []

/-- With enough climbs all entries come out. -/
theorem cut_of_enough {climbs : Nat} {marks : List Mark}
    (h : (marks.filterMap Mark.climbed?).length ≤ climbs) (report : Report) :
    cut stray climbs marks (entries report) = entries report := by
  obtain ⟨lines, error⟩ := report
  induction marks generalizing climbs lines with
  | nil => rw [cut]
  | cons mark rest ih =>
    cases mark with
    | climbed x =>
      obtain _ | climbs := climbs
      · cases h
      · rw [cut]
        exact ih (Nat.le_of_succ_le_succ h) lines
    | drawn id =>
      cases lines with
      | cons line lines => exact congrArg (.ok line :: ·) (ih h lines)
      | nil =>
        cases error with
        | none => exact ih h []
        | some error => rfl

/-- Where the climbs run out, the lines before the climb come out and then an error. -/
theorem cut_at {before behind : List Mark} {report : Report}
    (h : (before.filterMap Mark.drawn?).length ≤ report.1.length) :
    cut stray (before.filterMap Mark.climbed?).length (before ++ .climbed x :: behind) (entries report) =
      entries (report.1.take (before.filterMap Mark.drawn?).length, some (stray x)) := by
  obtain ⟨lines, error⟩ := report
  induction before generalizing lines with
  | nil => rfl
  | cons mark rest ih =>
    cases mark with
    | climbed y => exact ih lines h
    | drawn id =>
      cases lines with
      | nil => cases h
      | cons line lines => exact congrArg (.ok line :: ·) (ih lines (Nat.le_of_succ_le_succ h))

/-- An error before the climbs run out is the last entry. -/
theorem cut_before {before behind : List Mark} {lines : List Line} {error : Error}
    (h : lines.length < (before.filterMap Mark.drawn?).length) :
    cut stray (before.filterMap Mark.climbed?).length (before ++ .climbed x :: behind)
      (entries (lines, some error)) = entries (lines, some error) := by
  induction before generalizing lines with
  | nil => cases h
  | cons mark rest ih =>
    cases mark with
    | climbed y => exact ih h
    | drawn id =>
      cases lines with
      | nil => rfl
      | cons line lines => exact congrArg (.ok line :: ·) (ih (Nat.lt_of_succ_lt_succ h))

end Cut

namespace Stream

variable {forest : Forest} {decide : Nat → Visibility} {id : Nat}

/-! ### The course from a moment on -/

section Course

variable (forest : Forest) (theme : Theme) (source : String) (decide : Nat → Visibility)

/-- The course behind a node so deep below the start: its later siblings, the climb to its parent, and
    what is behind that. -/
def courseBehind : Nat → Nat → List Mark
  | 0, _ => []
  | depth + 1, id =>
    Tree.courseAll theme source decide ((forest.later id).map forest.tree) ++
      (forest.parent? id).elim [] fun above => .climbed above :: courseBehind depth above

/-- The course from a moment of a walk on, where the pending lines are of the node `present`. -/
def courseLeft (s : Stream Place) (present : Nat) : List Mark :=
  (s.pending.map fun _ => present).map .drawn ++
    match s.task with
    | .visit =>
      Tree.course s.theme s.source decide (forest.tree s.cursor.id) ++
        courseBehind forest s.theme s.source decide s.levels.length s.cursor.id
    | .onward => courseBehind forest s.theme s.source decide s.levels.length s.cursor.id
    | .stop => []

end Course

section Moves

variable {s t : Stream Place} {present child : Nat} {rest : List Nat} {level : Level}
  {outer : List Level}

/-- What comes from a node on that is entered is its own line, and what comes from its first child on. -/
theorem course_entered (linked : forest.Linked) (hchildren : forest.childList id = child :: rest)
    (hshown : decide id = .shown) (theme : Theme) (source : String) (depth : Nat) :
    Tree.course theme source decide (forest.tree id) ++ courseBehind forest theme source decide depth id =
      .drawn id :: (Tree.course theme source decide (forest.tree child) ++
        courseBehind forest theme source decide (depth + 1) child) := by
  obtain ⟨hparent, hlater⟩ := linked.later_of_childList hchildren
  rw [linked.tree_eq, hchildren, Tree.course_entered hshown _ (by simp), courseBehind, hparent, hlater,
    Option.elim_some, Tree.courseAll_eq_flatMap, List.map_cons, List.flatMap_cons]
  simp only [List.cons_append, List.append_assoc, List.nil_append]

/-- What is behind a node with a later sibling is what comes from the sibling on. -/
theorem courseBehind_sibling (linked : forest.Linked) {sibling : Nat}
    (hlater : forest.later id = sibling :: rest) (theme : Theme) (source : String) (depth : Nat) :
    courseBehind forest theme source decide (depth + 1) id =
      Tree.course theme source decide (forest.tree sibling) ++
        courseBehind forest theme source decide (depth + 1) sibling := by
  obtain ⟨hparent, hrest⟩ := linked.later_of_later hlater
  rw [courseBehind, courseBehind, hlater, hrest, hparent, List.map_cons, Tree.courseAll,
    List.append_assoc]

/-- Where the children of a node are not walked, its course is its lines. -/
theorem course_eq_owners (linked : forest.Linked) (h : decide id = .shown → forest.childList id = [])
    (theme : Theme) (source : String) :
    Tree.course theme source decide (forest.tree id) =
      (Tree.owners theme source decide (forest.tree id)).map .drawn := by
  rw [linked.tree_eq]
  exact Tree.course_unentered (fun hshown => by rw [h hshown]; rfl) _

/-! ### Moves follow the course -/

theorem courseLeft_visit (hcursor : s.cursor = ⟨forest, id⟩) (htask : s.task = .visit)
    (hpending : s.pending = []) :
    courseLeft forest decide s present =
      Tree.course s.theme s.source decide (forest.tree id) ++
        courseBehind forest s.theme s.source decide s.levels.length id := by
  rw [courseLeft, htask, hpending, hcursor]
  rfl

theorem courseLeft_onward (hcursor : s.cursor = ⟨forest, id⟩) (htask : s.task = .onward)
    (hpending : s.pending = []) :
    courseLeft forest decide s present =
      courseBehind forest s.theme s.source decide s.levels.length id := by
  rw [courseLeft, htask, hpending, hcursor]
  rfl

theorem courseLeft_stop (htask : s.task = .stop) (hpending : s.pending = []) :
    courseLeft forest decide s present = [] := by
  rw [courseLeft, htask, hpending]
  rfl

/-- A node that is done with leaves its lines pending, and what is behind it. -/
theorem courseLeft_done (linked : forest.Linked) (hcursor : s.cursor = ⟨forest, id⟩)
    (htask : s.task = .visit) (hpending : s.pending = [])
    (hleaf : decide id = .shown → forest.childList id = []) (spot : SameSpot s t)
    (howners : t.pending.map (fun _ => id) = Tree.owners s.theme s.source decide (forest.tree id)) :
    courseLeft forest decide s present = courseLeft forest decide { t with task := .onward } id := by
  show _ = (t.pending.map fun _ => id).map .drawn ++
    courseBehind forest t.theme t.source decide t.levels.length t.cursor.id
  rw [courseLeft_visit hcursor htask hpending, course_eq_owners linked hleaf, howners, spot.depth,
    spot.cursor, hcursor, theme_of_settings spot.settings, source_of_settings spot.settings]

theorem Decided.spot_draw (decided : Decided forest decide s t id) (lines : List Line) :
    SameSpot s (t.lookAhead.draw lines) :=
  decided.spot.trans ((sameSpot_lookAhead t).trans (sameSpot_draw t.lookAhead lines))

/-- The lines drawn after a decision are those that are pending. -/
theorem Decided.map_pending (decided : Decided forest decide s t id) (hpending : s.pending = [])
    (lines : List Line) :
    (t.lookAhead.draw lines).pending.map (fun _ => id) = lines.map fun _ => id := by
  rw [map_pending_draw, pending_lookAhead, decided.pending, hpending]
  rfl

/-- A node that is entered leaves its line pending, and what comes from its first child on. -/
theorem courseLeft_entered (linked : forest.Linked) (hcursor : s.cursor = ⟨forest, id⟩)
    (htask : s.task = .visit) (hpending : s.pending = []) (hshown : decide id = .shown)
    (hchildren : forest.childList id = child :: rest) (spot : SameSpot s t)
    (hdrawn : t.pending.map (fun _ => id) = [id]) :
    courseLeft forest decide s present =
      courseLeft forest decide
        { t with cursor := ⟨forest, child⟩, levels := {} :: t.levels, task := .visit } id := by
  show _ = (t.pending.map fun _ => id).map .drawn ++
    (Tree.course t.theme t.source decide (forest.tree child) ++
      courseBehind forest t.theme t.source decide (t.levels.length + 1) child)
  rw [courseLeft_visit hcursor htask hpending, course_entered linked hchildren hshown, hdrawn, spot.depth,
    theme_of_settings spot.settings, source_of_settings spot.settings]
  rfl

/-- Going to the next sibling leaves the course as it is. -/
theorem courseLeft_toSibling (linked : forest.Linked) {sibling : Nat} (hcursor : s.cursor = ⟨forest, id⟩)
    (htask : s.task = .onward) (hpending : s.pending = []) (hlevels : s.levels = level :: outer)
    (hlater : forest.later id = sibling :: rest) :
    courseLeft forest decide s present =
      courseLeft forest decide { s with cursor := ⟨forest, sibling⟩, task := .visit } present := by
  rw [courseLeft_onward hcursor htask hpending,
    courseLeft_visit (s := { s with cursor := ⟨forest, sibling⟩, task := .visit }) rfl rfl hpending]
  show _ = _ ++ courseBehind forest s.theme s.source decide s.levels.length sibling
  rw [hlevels, List.length_cons, courseBehind_sibling linked hlater]

/-- Behind the last child the parent is climbed to. -/
theorem courseLeft_toParent {parent : Nat} (hcursor : s.cursor = ⟨forest, id⟩) (htask : s.task = .onward)
    (hpending : s.pending = []) (hlevels : s.levels = level :: outer) (hlater : forest.later id = [])
    (hparent : forest.parent? id = some parent) :
    courseLeft forest decide s present =
      .climbed parent ::
        courseLeft forest decide { s with cursor := ⟨forest, parent⟩, levels := outer } present := by
  rw [courseLeft_onward hcursor htask hpending,
    courseLeft_onward (s := { s with cursor := ⟨forest, parent⟩, levels := outer }) rfl htask hpending,
    hlevels, List.length_cons, courseBehind, hlater, hparent]
  rfl

/-- What taking a node comes to: the course is the same after it, or the error is next in it. -/
inductive Coursed (forest : Forest) (decide : Nat → Visibility) (s : Stream Place) (present : Nat) :
    Stream Place × Option Error → Prop
  | on {t : Stream Place} {n : Nat}
      (course : courseLeft forest decide s present = courseLeft forest decide t n) :
      Coursed forest decide s present (t, none)
  | failed {t : Stream Place} {error : Error} {n : Nat} {rest : List Mark}
      (course : courseLeft forest decide s present = .drawn n :: rest) :
      Coursed forest decide s present (t, some error)

/-- **Taking a node** draws what is next in the course. -/
theorem coursed_visit (linked : forest.Linked) (htask : s.task = .visit) (hpending : s.pending = [])
    (ready : Ready forest decide s) (agrees : (checked s.visit).1.Agrees decide) :
    Coursed forest decide s present (checked s.visit) := by
  obtain ⟨id, hcursor⟩ := Place.exists_eq_mk ready.inForest
  have hlabel : Cursor.label s.cursor = forest.label id := by
    rw [hcursor]
    rfl
  have hvisited := visited s
  generalize s.visit = result at agrees hvisited ⊢
  cases hvisited with
  | @hidden t hd =>
    obtain ⟨hhidden, decided⟩ := ready.decided hcursor htask hd (.inl agrees)
    refine .on (courseLeft_done linked hcursor htask hpending (by simp [hhidden]) decided.spot ?_)
    rw [decided.pending, hpending, linked.tree_eq, Tree.owners.eq_def]
    simp only [hhidden, List.map_nil]
  | @collapsed t hd =>
    obtain ⟨hcollapsed, decided⟩ := ready.decided hcursor htask hd (.inr agrees)
    refine .on (courseLeft_done linked hcursor htask hpending (by simp [hcollapsed])
      (decided.spot_draw _) ?_)
    rw [decided.map_pending hpending, owners_collapsed linked hcollapsed]
    rfl
  | @entered t child hd hchild =>
    obtain ⟨hshown, decided⟩ := ready.decided hcursor htask hd (.inr agrees)
    rw [hcursor] at hchild
    obtain ⟨first, rest, rfl, hchildren, -, -⟩ := Place.firstChild?_eq_some linked hchild
    exact .on (courseLeft_entered linked hcursor htask hpending hshown hchildren
      (decided.spot_draw _) (decided.map_pending hpending _))
  | @read t text hd hchild hslice =>
    obtain ⟨hshown, decided⟩ := ready.decided hcursor htask hd (.inr agrees)
    rw [hcursor, Place.firstChild?_eq_none] at hchild
    rw [hlabel] at hslice ⊢
    refine .on (courseLeft_done linked hcursor htask hpending (fun _ => hchild)
      (decided.spot_draw _) ?_)
    rw [decided.map_pending hpending, owners_leaf linked hchild hshown _ hslice]
  | @unreadable t error hd hchild hslice =>
    obtain ⟨hshown, decided⟩ := ready.decided hcursor htask hd (.inr agrees)
    rw [hcursor, Place.firstChild?_eq_none] at hchild
    rw [hlabel] at hslice
    have hcourse : courseLeft forest decide s present =
        .drawn id :: courseBehind forest s.theme s.source decide s.levels.length id := by
      rw [courseLeft_visit hcursor htask hpending, course_eq_owners linked (fun _ => hchild),
        owners_unreadable linked hchild hshown _ hslice]
      rfl
    exact .failed hcourse

end Moves

/-! ### Walks with so many climbs left -/

section Climbing

variable {s t : Stream (Limited Place)} {left climbs present : Nat} {level : Level} {outer : List Level}

/-- A walk whose cursor has so many climbs left, and the walk of the cursor inside. -/
structure Climbing (forest : Forest) (decide : Nat → Visibility) (s : Stream (Limited Place))
    (climbs : Nat) : Prop where
  ready : Ready forest decide s.inside
  climbs : s.cursor.climbs = some climbs
  peek : s.cursor.peek ≠ .fixed false

/-- The entries that such a walk will yield, where the pending lines are of the node `present`. -/
def due (forest : Forest) (decide : Nat → Visibility) (s : Stream (Limited Place))
    (climbs present : Nat) : List (Except Error Line) :=
  cut forest.stray climbs (courseLeft forest decide s.inside present)
    (entries (remaining forest decide s.inside))

/-- What a move comes to where these entries are due: the walk inside moves likewise, and the same entries
    are due; or the walk ends with the last entry. -/
inductive Spent (forest : Forest) (decide : Nat → Visibility) (entries : List (Except Error Line)) :
    Stream Place × Option Error → Stream (Limited Place) × Option Error → Prop
  | on {t : Stream (Limited Place)} {left n : Nat} (climbing : Climbing forest decide t left)
      (due : entries = due forest decide t left n) : Spent forest decide entries (t.inside, none) (t, none)
  | ended {inner : Stream Place × Option Error} {t : Stream (Limited Place)} {error : Error}
      (stop : t.task = .stop) (pending : t.pending = []) (due : entries = [.error error]) :
      Spent forest decide entries inner (t, some error)

/-- Taking a node uses up no climbs. -/
theorem cursor_visit {κ : Type} [Cursor κ] (s : Stream (Limited κ)) :
    s.visit.1.cursor.climbs = s.cursor.climbs ∧ s.visit.1.cursor.peek = s.cursor.peek := by
  obtain ⟨t, spot, h | ⟨error, h⟩ | ⟨child, hchild, h⟩⟩ := (visited s).spot <;> rw [h]
  · exact ⟨congrArg Limited.climbs spot.cursor, congrArg Limited.peek spot.cursor⟩
  · exact ⟨congrArg Limited.climbs spot.cursor, congrArg Limited.peek spot.cursor⟩
  · obtain ⟨below, -, rfl⟩ := Option.map_eq_some_iff.mp hchild
    exact ⟨rfl, rfl⟩

/-- A walk that takes a node. -/
theorem Climbing.spent_visit (linked : forest.Linked) (climbing : Climbing forest decide s climbs)
    (htask : s.task = .visit) (hpending : s.pending = [])
    (agrees : (checked s.inside.visit).1.Agrees decide) :
    Spent forest decide (due forest decide s climbs present) (checked s.inside.visit)
      (checked s.visit) := by
  have faithful := faithful_visit (s := s.inside) linked htask climbing.ready agrees
  have hcoursed : Coursed forest decide s.inside present (checked s.inside.visit) :=
    coursed_visit linked htask hpending climbing.ready agrees
  obtain ⟨hclimbs, hpeek⟩ := cursor_visit s
  rw [visit_inside (Limited.honest (Place.honest _) climbing.peek) (Place.honest _)] at faithful hcoursed ⊢
  rcases hmove : s.visit with ⟨t, _ | error⟩ <;> rw [hmove] at faithful hcoursed hclimbs hpeek
  · cases hcoursed with
    | @on _ n hcourse =>
      have hreport : remaining forest decide s.inside = remaining forest decide t.inside := faithful.report
      refine .on (n := n) ⟨faithful.ready, hclimbs.trans climbing.climbs, ?_⟩ ?_
      · rw [hpeek]
        exact climbing.peek
      · rw [due, due, hcourse, hreport]
  · cases hcoursed with
    | failed hcourse =>
      have hreport : remaining forest decide s.inside = (s.pending, some error) := faithful.report
      have hstopped := (faithful.stopped (by simp [checked, moveInside])).2
      refine .ended rfl (hstopped.trans hpending) ?_
      rw [due, hcourse, hreport, hpending]
      rfl

/-- A limited cursor climbs as the cursor inside does, with one climb less left. -/
theorem parent?_of_climbs {c above : Limited Place} (hclimbs : c.climbs = some climbs)
    (h : Cursor.parent? c = some above) :
    ∃ left, climbs = left + 1 ∧ Cursor.parent? c.inner = some above.inner ∧ above.climbs = some left ∧
      above.peek = c.peek := by
  have hparent : Limited.parent? c = some above := h
  unfold Limited.parent? at hparent
  rw [hclimbs] at hparent
  obtain _ | left := climbs
  · cases hparent
  · obtain ⟨place, hplace, rfl⟩ := Option.map_eq_some_iff.mp hparent
    exact ⟨left, rfl, hplace, rfl, rfl⟩

theorem later_eq_nil {c : Limited Place} (hplace : c.inner = ⟨forest, id⟩)
    (h : Cursor.nextSibling? c = none) : forest.later id = [] := by
  have hnone := Option.map_eq_none_iff.mp h
  rwa [hplace, Place.nextSibling?_eq_none] at hnone

theorem Climbing.exists_cursor (climbing : Climbing forest decide s climbs) :
    ∃ id, s.cursor.inner = ⟨forest, id⟩ := Place.exists_eq_mk climbing.ready.inForest

theorem Climbing.known (climbing : Climbing forest decide s climbs) (htask : s.task = .onward)
    (hcursor : s.cursor.inner = ⟨forest, id⟩) : Known forest decide s.levels id (forest.later id) := by
  have hknown := climbing.ready.known
  have hinside : s.inside.cursor = ⟨forest, id⟩ := hcursor
  have hsame : s.inside.task = .onward := htask
  rw [hsame, hinside] at hknown
  exact hknown

/-- A walk that is to climb and cannot has no climbs left, and is stuck on the last child. -/
theorem Climbing.spent_stuck (linked : forest.Linked) (climbing : Climbing forest decide s climbs)
    (htask : s.task = .onward) (hpending : s.pending = []) (hlevels : s.levels = level :: outer)
    (hbeside : Cursor.nextSibling? s.cursor = none) (habove : Cursor.parent? s.cursor = none)
    (inner : Stream Place × Option Error) :
    Spent forest decide (due forest decide s climbs present) inner
      (checked ({ s with levels := outer }, some (.strayCursor (Cursor.label s.cursor).name))) := by
  obtain ⟨id, hcursor⟩ := climbing.exists_cursor
  have hlabel : Cursor.label s.cursor = forest.label id := by
    show Cursor.label s.cursor.inner = _
    rw [hcursor]
    rfl
  have hknown := climbing.known htask hcursor
  rw [hlevels] at hknown
  obtain ⟨-, parent, hparent, -⟩ := hknown
  -- The node has a parent, so it is not for want of one that the cursor stays.
  obtain rfl : climbs = 0 := by
    by_contra hleft
    have hinner := Limited.parent?_inner (c := s.cursor) (by simpa [climbing.climbs] using hleft)
    rw [habove, hcursor, Place.parent?_eq, hparent] at hinner
    cases hinner
  have hlater := later_eq_nil hcursor hbeside
  have hstray : forest.stray parent = .strayCursor (Cursor.label s.cursor).name := by
    rw [Forest.stray, linked.childList_eq hparent, hlater, hlabel]
    simp
  refine .ended rfl hpending ?_
  rw [due, courseLeft_toParent (s := s.inside) hcursor htask hpending hlevels hlater hparent, cut, hstray]

/-- A walk that goes to the next sibling. -/
theorem Climbing.spent_toSibling (linked : forest.Linked) (climbing : Climbing forest decide s climbs)
    (htask : s.task = .onward) (hpending : s.pending = []) (hlevels : s.levels = level :: outer)
    {next : Limited Place} (hbeside : Cursor.nextSibling? s.cursor = some next)
    (faithful : Faithful forest decide s.inside
      (moveInside ({ s with cursor := next, task := .visit }, none))) :
    Spent forest decide (due forest decide s climbs present)
      (moveInside ({ s with cursor := next, task := .visit }, none))
      ({ s with cursor := next, task := .visit }, none) := by
  obtain ⟨id, hcursor⟩ := climbing.exists_cursor
  obtain ⟨place, hplace, rfl⟩ := Option.map_eq_some_iff.mp hbeside
  rw [hcursor] at hplace
  obtain ⟨sibling, rest, rfl, hlater, -, -⟩ := Place.nextSibling?_eq_some linked hplace
  refine .on (n := present) ⟨faithful.ready, climbing.climbs, climbing.peek⟩ ?_
  rw [due, due, courseLeft_toSibling (s := s.inside) linked hcursor htask hpending hlevels hlater,
    faithful.report]
  rfl

/-- A walk that climbs has one climb less left. -/
theorem Climbing.spent_toParent (climbing : Climbing forest decide s climbs)
    (htask : s.task = .onward) (hpending : s.pending = []) (hlevels : s.levels = level :: outer)
    {above : Limited Place} (hbeside : Cursor.nextSibling? s.cursor = none)
    (habove : Cursor.parent? s.cursor = some above)
    (faithful : Faithful forest decide s.inside
      (moveInside ({ s with cursor := above, levels := outer }, none))) :
    Spent forest decide (due forest decide s climbs present)
      (moveInside ({ s with cursor := above, levels := outer }, none))
      ({ s with cursor := above, levels := outer }, none) := by
  obtain ⟨id, hcursor⟩ := climbing.exists_cursor
  obtain ⟨left, rfl, hinner, hleft, hpeek⟩ := parent?_of_climbs climbing.climbs habove
  rw [hcursor] at hinner
  obtain ⟨parent, hparent, hplace⟩ := Place.parent?_eq_some.mp hinner
  have hlater := later_eq_nil hcursor hbeside
  refine .on (n := present) ⟨faithful.ready, hleft, by rw [hpeek]; exact climbing.peek⟩ ?_
  rw [due, due, courseLeft_toParent (s := s.inside) hcursor htask hpending hlevels hlater hparent,
    faithful.report, cut, ← hplace]
  rfl

/-- A walk that goes on. -/
theorem Climbing.spent_onward (linked : forest.Linked) (climbing : Climbing forest decide s climbs)
    (htask : s.task = .onward) (hpending : s.pending = []) :
    Spent forest decide (due forest decide s climbs present) (checked s.inside.onward)
      (checked s.onward) := by
  have faithful := faithful_onward (s := s.inside) linked htask climbing.ready
  have hleft := left s
  generalize hmove : s.onward = result at hleft ⊢
  cases hleft with
  | ended hlevels =>
    have hcourse : courseLeft forest decide s.inside present = [] := by
      obtain ⟨id, hcursor⟩ := climbing.exists_cursor
      have hinside : s.inside.levels = [] := hlevels
      rw [courseLeft_onward (s := s.inside) hcursor htask hpending, hinside]
      rfl
    rw [onward_inside fun _ hne => absurd hlevels hne, hmove] at faithful ⊢
    refine .on (n := present) ⟨faithful.ready, climbing.climbs, climbing.peek⟩ ?_
    rw [due, due, hcourse, faithful.report, courseLeft_stop rfl hpending]
    rfl
  | toSibling hlevels hbeside =>
    have hnext := Limited.nextSibling?_inner s.cursor
    rw [hbeside] at hnext
    rw [onward_inside fun _ _ hnone => Option.some_ne_none _ (hnext.trans hnone), hmove] at faithful ⊢
    exact climbing.spent_toSibling linked htask hpending hlevels hbeside faithful
  | toParent hlevels hbeside habove =>
    have hfree : s.cursor.climbs ≠ some 0 := by
      obtain ⟨left, hclimbs, -⟩ := parent?_of_climbs climbing.climbs habove
      rw [climbing.climbs, hclimbs]
      simp
    rw [onward_inside fun hnone => absurd hnone hfree, hmove] at faithful ⊢
    exact climbing.spent_toParent htask hpending hlevels hbeside habove faithful
  | strayed hlevels hbeside habove =>
    exact climbing.spent_stuck linked htask hpending hlevels hbeside habove _

/-- **Every move** leaves the same entries due, or ends the walk with the last one. -/
theorem Climbing.spent_advance (linked : forest.Linked) (climbing : Climbing forest decide s climbs)
    (hactive : s.task ≠ .stop) (hpending : s.pending = []) (agrees : s.inside.advance.1.Agrees decide) :
    Spent forest decide (due forest decide s climbs present) s.inside.advance s.advance := by
  have hcounted : Climbing forest decide { s with moves := s.moves - 1 } climbs :=
    ⟨⟨climbing.ready.inForest, climbing.ready.known⟩, climbing.climbs, climbing.peek⟩
  cases htask : s.task with
  | visit =>
    rw [advance_visit (s := s.inside) htask] at agrees ⊢
    rw [advance_visit htask]
    exact hcounted.spent_visit linked htask hpending agrees
  | onward =>
    rw [advance_onward (s := s.inside) htask, advance_onward htask]
    exact hcounted.spent_onward linked htask hpending
  | stop => exact absurd htask hactive

/-! ### Calls of such a walk -/

/-- What a call comes to where these entries are due: it answers with the first, and either the walk inside
    goes on likewise with the others due, or the walk has ended and there are no others. -/
inductive Pulled (forest : Forest) (decide : Nat → Visibility) (entries : List (Except Error Line)) :
    Stream Place → Option (Except Error Line) × Stream (Limited Place) → Prop
  | on {t : Stream (Limited Place)} {left n : Nat} (climbing : Climbing forest decide t left)
      (later : entries.tail = due forest decide t left n) :
      Pulled forest decide entries t.inside (entries.head?, t)
  | ended {inner : Stream Place} {t : Stream (Limited Place)} (stop : t.task = .stop)
      (pending : t.pending = []) (later : entries.tail = []) :
      Pulled forest decide entries inner (entries.head?, t)

/-- A line that is pending is due first. -/
theorem Climbing.pulled_pending {line : Line} {rest : List Line}
    (climbing : Climbing forest decide s climbs) (hpending : s.pending = line :: rest) :
    Pulled forest decide (due forest decide s climbs present) { s.inside with pending := rest }
      (some (.ok line), { s with pending := rest }) := by
  have hdue : due forest decide s climbs present =
      .ok line :: due forest decide { s with pending := rest } climbs present := by
    have hcourse : courseLeft forest decide s.inside present =
        .drawn present :: courseLeft forest decide { s.inside with pending := rest } present := by
      rw [courseLeft, show s.inside.pending = line :: rest from hpending]
      rfl
    rw [due, hcourse, entries_remaining_cons (s := s.inside) hpending, cut]
    rfl
  rw [hdue]
  exact .on (t := { s with pending := rest })
    ⟨⟨climbing.ready.inForest, climbing.ready.known⟩, climbing.climbs, climbing.peek⟩ rfl

/-- When a walk has stopped, nothing is due. -/
theorem pulled_stop (hpending : s.pending = []) (htask : s.task = .stop) (inner : Stream Place) :
    Pulled forest decide (due forest decide s climbs present) inner (none, s) := by
  have hdue : due forest decide s climbs present = [] := by
    rw [due, courseLeft_stop (s := s.inside) htask hpending, cut, remaining_stop (s := s.inside) htask]
    show entries (s.pending, none) = []
    rw [hpending]
    rfl
  rw [hdue]
  exact .ended htask hpending rfl

/-- **Every call** answers with the first entry that is due, if it may move often enough. -/
theorem Climbing.pulled (linked : forest.Linked) (fuel : Nat) (climbing : Climbing forest decide s climbs)
    (hfuel : movesLeft forest s.inside ≤ fuel) (agrees : (search fuel s.inside).2.Agrees decide) :
    Pulled forest decide (due forest decide s climbs present) (search fuel s.inside).2 (search fuel s) := by
  induction fuel generalizing s climbs present with
  | zero =>
    cases hpending : s.pending with
    | nil =>
      -- Without moves left the walk has stopped.
      rw [search_zero hpending]
      exact pulled_stop hpending (movesLeft_eq_zero.mp (Nat.le_zero.mp hfuel)) _
    | cons line rest =>
      rw [search_pending 0 hpending, search_pending (s := s.inside) 0 hpending]
      exact climbing.pulled_pending hpending
  | succ fuel ih =>
    cases hpending : s.pending with
    | cons line rest =>
      rw [search_pending _ hpending, search_pending (s := s.inside) _ hpending]
      exact climbing.pulled_pending hpending
    | nil =>
      by_cases htask : s.task = .stop
      · rw [search_stop _ hpending htask]
        exact pulled_stop hpending htask _
      have hleft := movesLeft_advance (s := s.inside) linked climbing.ready.inForest htask
      have hagrees : s.inside.advance.1.Agrees decide := by
        rcases hmove : s.inside.advance with ⟨t, _ | error⟩
        · rw [search_moved (s := s.inside) fuel hpending htask hmove] at agrees
          -- The answers so far are among those at the end of the search.
          exact agrees.of_continues (search_keeps (continues_kept t) fuel (Continues.refl t))
        · rwa [search_failed (s := s.inside) fuel hpending htask hmove] at agrees
      have spent : Spent forest decide (due forest decide s climbs present) s.inside.advance s.advance :=
        climbing.spent_advance linked htask hpending hagrees
      generalize hmove : s.advance = result at spent
      generalize hinside : s.inside.advance = inner at spent hleft
      cases spent with
      | on htold hdue =>
        rw [search_moved (s := s.inside) fuel hpending htask hinside] at agrees ⊢
        rw [search_moved fuel hpending htask hmove, hdue]
        exact ih htold (Nat.le_of_succ_le_succ (hleft.trans hfuel)) agrees
      | ended hstop hempty hdue =>
        rw [search_failed fuel hpending htask hmove, hdue]
        exact .ended hstop hempty rfl

/-- A walk that has stopped answers with nothing. -/
theorem yields_stop {κ : Type} [Cursor κ] {s : Stream κ} (hpending : s.pending = [])
    (htask : s.task = .stop) : s.Yields [] := by
  intro n
  have hnext := Ended.next ⟨htask, hpending⟩
  induction n with
  | zero => rfl
  | succ n ih => exact pulls_succ_eq (by rw [hnext]; rfl) (by rw [hnext]; exact ih)

/-- **All calls** of such a walk answer with the entries that are due, as long as the walk inside follows
    decisions. -/
theorem Climbing.yields (linked : forest.Linked) {root : Nat} (climbing : Climbing forest decide s climbs)
    (funded : Funded forest root s.inside) (follows : s.inside.Follows decide) :
    s.Yields (due forest decide s climbs present) := by
  intro n
  induction n generalizing s climbs present with
  | zero => rfl
  | succ n ih =>
    have pulled : Pulled forest decide (due forest decide s climbs present) s.inside.next.2 s.next :=
      climbing.pulled linked s.moves funded.enough (follows 1)
    have hfunded : Funded forest root s.inside.next.2 :=
      search_keeps (funded_kept linked root) s.inside.moves funded
    have hfollows : s.inside.next.2.Follows decide := fun k => follows (k + 1)
    generalize hnext : s.next = result at pulled
    generalize s.inside.next.2 = inner at pulled hfunded hfollows
    cases pulled with
    | on htold hlater =>
      refine pulls_succ_eq (by rw [hnext]) ?_
      rw [hnext, hlater]
      exact ih htold hfunded hfollows
    | ended hstop hempty hlater =>
      refine pulls_succ_eq (by rw [hnext]) ?_
      rw [hnext, hlater]
      exact yields_stop hempty hstop n

/-- A walk with a bound on its climbs yields the entries of the outline up to the climb that fails. -/
theorem Follows.yields_limited (linked : forest.Linked) {root : Nat} (hroot : root < forest.size)
    {source : String} {theme : Theme} {filter : Filter} (n : Nat)
    (follows : (start (⟨forest, root⟩ : Place) source theme filter).Follows decide) :
    (start ({ inner := ⟨forest, root⟩, climbs := some n } : Limited Place) source theme filter).Yields
      (cut forest.stray n ((forest.tree root).course theme source decide)
        (entries ((forest.tree root).outline theme source decide))) := by
  generalize hs : start ({ inner := ⟨forest, root⟩, climbs := some n } : Limited Place) source theme filter = s
  have hinside : s.inside = start (⟨forest, root⟩ : Place) source theme filter := by
    rw [← hs]
    rfl
  have climbing : Climbing forest decide s n := by
    rw [← hs]
    exact ⟨⟨rfl, trivial⟩, rfl, Peek.noConfusion⟩
  have funded := funded_start linked hroot source theme filter
  rw [← hinside] at funded follows
  have hdue : s.Yields (due forest decide s n root) := climbing.yields linked funded follows
  have hcourse : courseLeft forest decide s.inside root = (forest.tree root).course theme source decide := by
    rw [hinside]
    exact List.append_nil _
  rwa [due, hcourse, hinside, remaining_start] at hdue

end Climbing

end Stream

/-- **A walk ends when its climbs run out.** Let a cursor climb at most `n` times, and let the walk with the
    cursor inside follow decisions. If the walk climbs back to no more than `n` nodes, both walks answer all
    calls alike. Otherwise let `x` be the first node that cannot be climbed back to, and `count` the number
    of lines up to the last one of the tree of `x`. If all of these come out, they are the lines of the
    walk; then comes the error that names the last child of `x`, whatever was decided on that child, and
    then nothing. If an error comes sooner, both walks answer all calls alike. -/
theorem walk_ends_when_climbs_run_out {forest : Forest} (grown : forest.Grown) {root : Nat}
    (inForest : forest.contains root = true) (source : String) (theme : Theme) (filter : Filter)
    (n : Nat) :
    let plain := Stream.start (⟨forest, root⟩ : Place) source theme filter
    let limited := Stream.start ({ inner := ⟨forest, root⟩, climbs := some n } : Limited Place) source
      theme filter
    (∃ decide, plain.Follows decide) ∧
      ∀ decide, plain.Follows decide →
        let report := (forest.tree root).outline theme source decide
        let owners := (forest.tree root).owners theme source decide
        let climbs := (forest.tree root).climbs decide
        plain.Yields (entries report) ∧
          (climbs.length ≤ n → ∀ k, limited.pulls k = plain.pulls k) ∧
          ∀ x, climbs[n]? = some x → ∃ last count,
            (forest.childList x).getLast? = some last ∧ 0 < count ∧
            (∃ y ∈ (forest.tree x).preorder, owners[count - 1]? = some y) ∧
            (∀ i ≥ count, ∀ y, owners[i]? = some y → y ∉ (forest.tree x).preorder) ∧
            (count ≤ report.1.length →
              limited.Yields (entries (report.1.take count, some (.strayCursor (forest.label last).name)))) ∧
            (report.1.length < count →
              report.2 ≠ none ∧ ∀ k, limited.pulls k = plain.pulls k) := by
  intro plain limited
  have linked := grown.linked
  refine ⟨Stream.exists_follows linked root source theme filter, fun decide follows => ?_⟩
  intro report owners climbs
  have hroot := of_decide_eq_true inForest
  have yields : plain.Yields (entries report) := follows.yields linked hroot
  have hlimited : limited.Yields
      (cut forest.stray n ((forest.tree root).course theme source decide) (entries report)) :=
    follows.yields_limited linked hroot n
  have halike : limited.Yields (entries report) → ∀ k, limited.pulls k = plain.pulls k :=
    fun hsame k => (hsame k).trans (yields k).symm
  refine ⟨yields, fun henough => halike ?_, fun x hx => ?_⟩
  · rwa [cut_of_enough (by rwa [Tree.climbed_course])] at hlimited
  -- The course tells where the climb that fails is among the lines.
  · obtain ⟨before, behind, hcourse, rfl⟩ := Tree.exists_course_split theme source hx
    obtain ⟨-, hentered, -⟩ := linked.course_split hcourse
    obtain ⟨hpos, hcount, hlast, hlater⟩ := linked.owners_around_climb hcourse
    obtain ⟨last, hchild⟩ := Option.isSome_iff_exists.mp (List.getLast?_isSome.mpr hentered)
    rw [hcourse] at hlimited
    refine ⟨last, _, hchild, hpos, hlast, hlater, fun hout => ?_, fun hsooner => ?_⟩
    · have hstray : forest.stray x = .strayCursor (forest.label last).name := by
        rw [Forest.stray, List.getLastD_eq_getLast?, hchild, Option.getD_some]
      rwa [cut_at hout, hstray] at hlimited
    · have hfails : report.2 ≠ none := fun hnone => by
        have hlength : owners.length = report.1.length := Tree.length_owners hnone
        exact absurd hsooner (Nat.not_lt.mpr (hcount.trans hlength.le))
      obtain ⟨error, herror⟩ := Option.ne_none_iff_exists'.mp hfails
      have hreport : report = (report.1, some error) := Prod.ext rfl herror
      refine ⟨hfails, halike ?_⟩
      rw [hreport, cut_before hsooner] at hlimited
      rwa [hreport]

/-- With one climb the walk comes back to "Left", but not to "Pair", of which the last child is "Right". -/
theorem climbs_run_out_on_sapling :
    let rules : NameRules := { hidden := ["Right"] }
    let limited := Stream.start ({ inner := ⟨.sapling, 0⟩, climbs := some 1 } : Limited Place) "xy"
      .terminal rules.filter
    let report := (Forest.sapling.tree 0).outline .terminal "xy"
      (Forest.sapling.byLabel fun label => rules.decide label.name)
    Forest.sapling.Grown ∧ Forest.sapling.contains 0 = true ∧
      limited.Yields (entries (report.1.take 3, some (.strayCursor "Right"))) := by
  intro rules limited report
  have inForest : Forest.sapling.contains 0 = true := rfl
  obtain ⟨-, hall⟩ := walk_ends_when_climbs_run_out Forest.grown_sapling inForest "xy" .terminal
    rules.filter 1
  have follows := Stream.follows_ofLabel .sapling (fun label => rules.decide label.name) 0 "xy" .terminal
  obtain ⟨-, -, hstuck⟩ := hall _ follows
  obtain ⟨last, count, hlast, -, ⟨y, -, hy⟩, hnone, hyields, -⟩ := hstuck 0 (by decide +kernel)
  obtain rfl : 3 = last := Option.some.inj hlast
  have howners : (Forest.sapling.tree 0).owners .terminal "xy"
      (Forest.sapling.byLabel fun label => rules.decide label.name) = [0, 1, 2] := by decide +kernel
  rw [howners] at hy hnone
  -- Of the three lines, the last one is the line of "Leaf", below "Left".
  obtain rfl : count = 3 := by
    have hle : count - 1 < 3 := (List.getElem?_eq_some_iff.mp hy).1
    have hge : ¬ count ≤ 2 := fun hle => hnone 2 hle 2 rfl (by decide +kernel)
    omega
  exact ⟨Forest.grown_sapling, inForest, hyields (by decide +kernel)⟩

example :
    ((Stream.start ({ inner := ⟨.sapling, 0⟩, climbs := some 1 } : Limited Place) "xy" .terminal
      (NameRules.filter { hidden := ["Right"] })).pulls 5).map
        (fun answer => answer.map fun entry =>
          match entry with
          | .ok line => line.plain
          | .error error => error.message) =
      [some "Pair:", some "└╴Left:", some "  └╴Leaf: x",
        some "🧭 Tree cursor could not navigate back from 'Right'", none] := by
  decide +kernel

end BoxTree
