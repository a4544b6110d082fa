import BoxTree.Proofs.LookedAhead
import BoxTree.Proofs.StreamConsumed

namespace BoxTree

/-!
# What is decided for a line

A walk decides on no more nodes than the next line needs. Whenever a line comes out one can tell on
which nodes it has decided, from the node of the line alone.

* `Tree.owners` — the node of each line of an outline.
* `Stream.upcoming` — the nodes of the lines from a moment of a walk on.
* `Stream.Tracked` — what the filter has been asked about, at any moment of a walk.
* `Stream.DrawnAt` — the same when a line has just come out.
* `Stream.moved_advance`, `Stream.told_search` — every move and every call of `next` keeps track.
* `decides_once_and_only_as_needed` — what has been decided after any number of calls.
-/

/-! ### Whose lines they are -/

namespace Tree

variable (theme : Theme) (source : String) (decide : Nat → Visibility)

mutual

/-- The node of each line of an outline in turn, and of the error where it ends. Behind an error come the
    nodes whose lines are missing. -/
def owners : Tree → List Nat
  | node id label children =>
    match decide id with
    | .hidden => []
    | .collapsed => [id]
    | .shown =>
      match children with
      | [] =>
        match Text.slice source label.start label.stop with
        | .ok text => (childlessLines theme label.name text).map fun _ => id
        | .error _ => [id]
      | child :: rest => id :: ownersAll (child :: rest)

/-- The nodes of the lines of several trees. -/
def ownersAll : List Tree → List Nat
  | [] => []
  | tree :: rest => owners tree ++ ownersAll rest

end

end Tree

namespace Stream

variable {forest : Forest} {decide : Nat → Visibility} {s t : Stream Place} {root id parent x : Nat}
  {levels outer : List Level} {level : Level}

section Owners

variable (forest : Forest) (theme : Theme) (source : String) (decide : Nat → Visibility)

/-- The nodes of the lines behind a node so deep below the start. -/
def ownersBehind : Nat → Nat → List Nat
  | 0, _ => []
  | depth + 1, id =>
    Tree.ownersAll theme source decide ((forest.later id).map forest.tree) ++
      (forest.parent? id).elim [] (ownersBehind depth)

/-- The nodes of the lines from a moment of a walk on, where the pending ones are of the node
    `present`. -/
def upcoming (s : Stream Place) (present : Nat) : List Nat :=
  s.pending.map (fun _ => present) ++
    match s.task with
    | .visit =>
      Tree.owners s.theme s.source decide (forest.tree s.cursor.id) ++
        ownersBehind forest s.theme s.source decide s.levels.length s.cursor.id
    | .onward => ownersBehind forest s.theme s.source decide s.levels.length s.cursor.id
    | .stop => []

end Owners

/-! ### What has been decided -/

/-- A line of this node has come out: the filter has been asked about what is around it. -/
def DrawnAt (forest : Forest) (decide : Nat → Visibility) (root : Nat) (asked : List Place) (n : Nat) :
    Prop :=
  ∃ depth, forest.ancestor? depth n = some root ∧
    ∀ x, x ∈ asked.map Place.id ↔ forest.Around decide depth n x

/-- What the filter has been asked about at a moment of a walk, where the lines that are pending are of
    the node `present`. -/
structure Tracked (forest : Forest) (decide : Nat → Visibility) (root : Nat) (s : Stream Place)
    (present : Nat) : Prop where
  looking : match s.task with
    | .visit => Looking forest decide s.levels s.cursor.id (s.cursor.id :: forest.later s.cursor.id)
    | .onward => Looking forest decide s.levels s.cursor.id (forest.later s.cursor.id)
    | .stop => True
  asked : ∀ x, x ∈ s.asked.map Place.id ↔
    match s.task with
    | .visit =>
      Outside forest decide s.levels s.cursor.id (s.cursor.id :: forest.later s.cursor.id) x
    | .onward =>
      forest.Reached decide s.cursor.id x ∨
        Outside forest decide s.levels s.cursor.id (forest.later s.cursor.id) x
    | .stop => forest.Reached decide root x
  drawn : s.pending ≠ [] → DrawnAt forest decide root s.asked present

/-- What a move comes to: what the filter has been asked about is known again, and the lines to come are
    of the same nodes; or it fails at the node of the next entry. -/
inductive Moved (forest : Forest) (decide : Nat → Visibility) (root : Nat) (s : Stream Place)
    (present : Nat) : Stream Place × Option Error → Prop
  | on {t : Stream Place} {n : Nat} (tracked : Tracked forest decide root t n)
      (owners : upcoming forest decide s present = upcoming forest decide t n) :
      Moved forest decide root s present (t, none)
  | failed {t : Stream Place} {error : Error} {n : Nat} {rest : List Nat}
      (owners : upcoming forest decide s present = n :: rest)
      (drawn : DrawnAt forest decide root t.asked n) :
      Moved forest decide root s present (t, some error)

/-- A walk that has decided on what is around its node, and has drawn nothing of it. -/
structure Viewed (forest : Forest) (decide : Nat → Visibility) (s t : Stream Place) (id : Nat) :
    Prop where
  spot : SameSpot s t
  pending : t.pending = s.pending
  looked : Looked forest decide t.levels id
  asked : ∀ x, x ∈ t.asked.map Place.id ↔ forest.Around decide s.levels.length id x

/-- A walk that takes a node that is not hidden decides on what is around it. -/
theorem Tracked.viewed (linked : forest.Linked) {present : Nat}
    (tracked : Tracked forest decide root s present) (hcursor : s.cursor = ⟨forest, id⟩)
    (htask : s.task = .visit) {decision : Visibility} (hd : s.decide = (decision, t))
    (hne : decide id ≠ .hidden) (agrees : t.lookAhead.Agrees decide) :
    Viewed forest decide s t.lookAhead id := by
  obtain ⟨looking, asked, -⟩ := tracked
  simp only [htask, hcursor] at looking asked
  obtain ⟨hasked, hlooking⟩ := asked_decide hcursor looking asked
  have hspot := sameSpot_decide s
  have hpending : s.decide.2.pending = s.pending := by
    unfold Stream.decide
    split <;> rfl
  rw [hd] at hasked hlooking hspot hpending
  rw [if_neg hne] at hlooking
  obtain ⟨looked, haround⟩ :=
    asked_lookAhead linked (hspot.cursor.trans hcursor) hlooking hasked agrees
  have hlook := hspot.trans (sameSpot_lookAhead t)
  rw [hlook.depth] at haround
  exact ⟨hlook, (pending_lookAhead t).trans hpending, looked, haround⟩

theorem Viewed.drawnAt (viewed : Viewed forest decide s t id)
    (hdepth : forest.ancestor? s.levels.length id = some root) :
    DrawnAt forest decide root t.asked id :=
  ⟨s.levels.length, hdepth, viewed.asked⟩

/-- The levels look as far ahead after drawing as before. -/
theorem Viewed.looked_draw (viewed : Viewed forest decide s t id) (lines : List Line) :
    Looked forest decide (t.draw lines).levels id :=
  looked_congr (Level.map_ahead_draw t.theme.tree t.levels lines) viewed.looked

/-- A node whose children are not walked is done with once it has been drawn. -/
theorem Viewed.done (linked : forest.Linked) (viewed : Viewed forest decide s t id)
    (hcursor : s.cursor = ⟨forest, id⟩)
    (hdepth : forest.ancestor? s.levels.length id = some root)
    (closed : decide id = .shown → forest.childList id = []) (lines : List Line) :
    Tracked forest decide root { t.draw lines with task := .onward } id := by
  have hsame : t.cursor = ⟨forest, id⟩ := viewed.spot.cursor.trans hcursor
  have looked := viewed.looked_draw lines
  have hlength : (t.draw lines).levels.length = s.levels.length :=
    (sameSpot_draw t lines).depth.trans viewed.spot.depth
  refine ⟨?_, fun x => ?_, fun _ => viewed.drawnAt hdepth⟩
  · show Looking forest decide (t.draw lines).levels t.cursor.id (forest.later t.cursor.id)
    rw [hsame]
    exact looked.looking
  · show x ∈ t.asked.map Place.id ↔ forest.Reached decide t.cursor.id x ∨
      Outside forest decide (t.draw lines).levels t.cursor.id (forest.later t.cursor.id) x
    rw [hsame, linked.reached_closed closed, ← looked.around_iff, hlength]
    exact viewed.asked x

/-- A node that is entered leaves its children to be decided. -/
theorem Viewed.entered (linked : forest.Linked) (viewed : Viewed forest decide s t id)
    (hdepth : forest.ancestor? s.levels.length id = some root) {child : Nat} {rest : List Nat}
    (hchildren : forest.childList id = child :: rest) (hshown : decide id = .shown)
    (lines : List Line) :
    Tracked forest decide root
      { t.draw lines with
        cursor := ⟨forest, child⟩, levels := {} :: (t.draw lines).levels, task := .visit } id := by
  obtain ⟨hparent, -⟩ := linked.later_of_childList hchildren
  have hlength : (t.draw lines).levels.length = s.levels.length :=
    (sameSpot_draw t lines).depth.trans viewed.spot.depth
  refine ⟨⟨Nat.zero_le _, id, hparent, hshown, viewed.looked_draw lines⟩, fun x => ?_,
    fun _ => viewed.drawnAt hdepth⟩
  show x ∈ t.asked.map Place.id ↔ Outside forest decide ({} :: (t.draw lines).levels) child _ x
  rw [viewed.asked x, Outside, linked.earlier_first hchildren, hparent, hlength]
  simp

/-- Drawn lines are of the node that they are drawn for. -/
theorem map_pending_draw (s : Stream Place) (lines : List Line) (n : Nat) :
    (s.draw lines).pending.map (fun _ => n) =
      s.pending.map (fun _ => n) ++ lines.map fun _ => n := by
  have hdrawn : ∀ levels : List Level,
      (Level.draw s.theme.tree levels lines).1.map (fun _ => n) = lines.map fun _ => n := by
    induction lines with
    | nil => exact fun _ => rfl
    | cons line rest ih => exact fun levels => congrArg (n :: ·) (ih _)
  unfold draw
  rw [← hdrawn s.levels]
  exact List.map_append

/-- A collapsed node has one line. -/
theorem owners_collapsed (linked : forest.Linked) (hcollapsed : decide id = .collapsed) (theme : Theme)
    (source : String) : Tree.owners theme source decide (forest.tree id) = [id] := by
  rw [linked.tree_eq, Tree.owners.eq_def]
  simp only [hcollapsed]

/-- A leaf has the lines of its text. -/
theorem owners_leaf (linked : forest.Linked) (hchildren : forest.childList id = [])
    (hshown : decide id = .shown) (theme : Theme) {source text : String}
    (hslice : Text.slice source (forest.label id).start (forest.label id).stop = .ok text) :
    Tree.owners theme source decide (forest.tree id) =
      (childlessLines theme (forest.label id).name text).map fun _ => id := by
  rw [linked.tree_eq, hchildren, List.map_nil, Tree.owners, hshown]
  simp only [hslice]

/-- A leaf without a text has the error. -/
theorem owners_unreadable (linked : forest.Linked) (hchildren : forest.childList id = [])
    (hshown : decide id = .shown) (theme : Theme) {source : String} {error : Error}
    (hslice : Text.slice source (forest.label id).start (forest.label id).stop = .error error) :
    Tree.owners theme source decide (forest.tree id) = [id] := by
  rw [linked.tree_eq, hchildren, List.map_nil, Tree.owners, hshown]
  simp only [hslice]

/-- The lines of a node that is entered are its own and those from its first child on. -/
theorem owners_entered (linked : forest.Linked) {child : Nat} {rest : List Nat}
    (hchildren : forest.childList id = child :: rest) (hshown : decide id = .shown) (theme : Theme)
    (source : String) (depth : Nat) :
    Tree.owners theme source decide (forest.tree id) ++
        ownersBehind forest theme source decide depth id =
      id :: (Tree.owners theme source decide (forest.tree child) ++
        ownersBehind forest theme source decide (depth + 1) child) := by
  obtain ⟨hparent, hlater⟩ := linked.later_of_childList hchildren
  rw [linked.tree_eq, hchildren, List.map_cons, Tree.owners, hshown, ownersBehind, hparent, hlater,
    Option.elim_some, Tree.ownersAll, List.cons_append, List.append_assoc]

/-- The lines behind a node with a later sibling are those from the sibling on. -/
theorem ownersBehind_sibling (linked : forest.Linked) {sibling : Nat} {rest : List Nat}
    (hlater : forest.later id = sibling :: rest) (theme : Theme) (source : String) (depth : Nat) :
    ownersBehind forest theme source decide (depth + 1) id =
      Tree.owners theme source decide (forest.tree sibling) ++
        ownersBehind forest theme source decide (depth + 1) sibling := by
  obtain ⟨hparent, hrest⟩ := linked.later_of_later hlater
  rw [ownersBehind, ownersBehind, hlater, hrest, hparent, List.map_cons, Tree.ownersAll,
    List.append_assoc]

/-- What comes from the node of a walk on. -/
theorem upcoming_visit {present : Nat} (hcursor : s.cursor = ⟨forest, id⟩) (htask : s.task = .visit)
    (hpending : s.pending = []) :
    upcoming forest decide s present =
      Tree.owners s.theme s.source decide (forest.tree id) ++
        ownersBehind forest s.theme s.source decide s.levels.length id := by
  rw [upcoming, htask, hpending, hcursor]
  rfl

theorem upcoming_onward {present : Nat} (hcursor : s.cursor = ⟨forest, id⟩) (htask : s.task = .onward)
    (hpending : s.pending = []) :
    upcoming forest decide s present =
      ownersBehind forest s.theme s.source decide s.levels.length id := by
  rw [upcoming, htask, hpending, hcursor]
  rfl

/-- A node that is done with leaves its lines pending, and what is behind it. -/
theorem upcoming_done {present : Nat} {lines : List Line} (hcursor : s.cursor = ⟨forest, id⟩)
    (htask : s.task = .visit) (hpending : s.pending = []) (spot : SameSpot s t)
    (hsame : t.pending = s.pending)
    (howners : Tree.owners s.theme s.source decide (forest.tree id) = lines.map fun _ => id) :
    upcoming forest decide s present =
      upcoming forest decide { t.draw lines with task := .onward } id := by
  have hlength : (t.draw lines).levels.length = s.levels.length :=
    (sameSpot_draw t lines).depth.trans spot.depth
  show _ = (t.draw lines).pending.map (fun _ => id) ++
    ownersBehind forest t.theme t.source decide (t.draw lines).levels.length t.cursor.id
  rw [upcoming_visit hcursor htask hpending, howners, map_pending_draw, hsame, hpending, hlength,
    spot.cursor, hcursor, theme_of_settings spot.settings, source_of_settings spot.settings]
  rfl

/-- A node that is entered leaves its line pending, and what comes from its first child on. -/
theorem upcoming_entered (linked : forest.Linked) {present child : Nat} {rest : List Nat}
    (hcursor : s.cursor = ⟨forest, id⟩) (htask : s.task = .visit) (hpending : s.pending = [])
    (spot : SameSpot s t) (hsame : t.pending = s.pending)
    (hchildren : forest.childList id = child :: rest) (hshown : decide id = .shown) (line : Line) :
    upcoming forest decide s present =
      upcoming forest decide
        { t.draw [line] with
          cursor := ⟨forest, child⟩, levels := {} :: (t.draw [line]).levels, task := .visit } id := by
  have hlength : (t.draw [line]).levels.length = s.levels.length :=
    (sameSpot_draw t [line]).depth.trans spot.depth
  show _ = (t.draw [line]).pending.map (fun _ => id) ++
    (Tree.owners t.theme t.source decide (forest.tree child) ++
      ownersBehind forest t.theme t.source decide ((t.draw [line]).levels.length + 1) child)
  rw [upcoming_visit hcursor htask hpending, owners_entered linked hchildren hshown, map_pending_draw,
    hsame, hpending, hlength, theme_of_settings spot.settings, source_of_settings spot.settings]
  rfl

/-- A hidden node is passed over: nothing of it is drawn, and nothing below it is reached. -/
theorem Tracked.passed (linked : forest.Linked) {present : Nat}
    (tracked : Tracked forest decide root s present) (hcursor : s.cursor = ⟨forest, id⟩)
    (htask : s.task = .visit) (hpending : s.pending = []) {decision : Visibility}
    (hd : s.decide = (decision, t)) (hhidden : decide id = .hidden)
    (decided : Decided forest decide s t id) :
    Moved forest decide root s present ({ t with task := .onward }, none) := by
  obtain ⟨looking, asked, -⟩ := tracked
  simp only [htask, hcursor] at looking asked
  obtain ⟨hasked, hlooking⟩ := asked_decide hcursor looking asked
  rw [hd] at hasked hlooking
  rw [if_pos hhidden] at hlooking
  have hsame : t.cursor = ⟨forest, id⟩ := decided.spot.cursor.trans hcursor
  refine .on (n := id) ⟨?_, fun x => ?_, fun hnone => absurd (decided.pending.trans hpending) hnone⟩ ?_
  · show Looking forest decide t.levels t.cursor.id (forest.later t.cursor.id)
    rw [hsame]
    exact hlooking
  · show x ∈ t.asked.map Place.id ↔ forest.Reached decide t.cursor.id x ∨
      Outside forest decide t.levels t.cursor.id (forest.later t.cursor.id) x
    rw [hsame, linked.reached_closed fun hshown => by rw [hhidden] at hshown; cases hshown]
    exact hasked x
  · have hnone : Tree.owners s.theme s.source decide (forest.tree id) = [] := by
      rw [linked.tree_eq, Tree.owners.eq_def]
      simp only [hhidden]
    show _ = t.pending.map (fun _ => id) ++
      ownersBehind forest t.theme t.source decide t.levels.length t.cursor.id
    rw [upcoming_visit hcursor htask hpending, hnone, decided.pending, hpending, decided.spot.depth,
      hsame, theme_of_settings decided.spot.settings, source_of_settings decided.spot.settings]
    rfl

/-- A walk that takes a node keeps track. -/
theorem moved_visit (linked : forest.Linked) {present : Nat} (htask : s.task = .visit)
    (hpending : s.pending = []) (ready : Ready forest decide s) (below : Below forest root s)
    (tracked : Tracked forest decide root s present) (agrees : (checked s.visit).1.Agrees decide) :
    Moved forest decide root s present (checked s.visit) := by
  obtain ⟨id, hcursor⟩ := Place.exists_eq_mk ready.inForest
  have hdepth : forest.ancestor? s.levels.length id = some root := by
    have h := below.depth
    rwa [hcursor] at h
  have hlabel : Cursor.label s.cursor = forest.label id := by
    rw [hcursor]
    rfl
  have hvisited := visited s
  generalize s.visit = result at agrees hvisited ⊢
  cases hvisited with
  | @hidden t hd =>
    obtain ⟨hhidden, decided⟩ := ready.decided hcursor htask hd (.inl agrees)
    exact tracked.passed linked hcursor htask hpending hd hhidden decided
  | @collapsed t hd =>
    have hcollapsed := (ready.decided hcursor htask hd (.inr agrees)).1
    have viewed := tracked.viewed linked hcursor htask hd (by simp [hcollapsed]) agrees
    exact .on (viewed.done linked hcursor hdepth (by simp [hcollapsed]) _)
      (upcoming_done hcursor htask hpending viewed.spot viewed.pending
        (owners_collapsed linked hcollapsed _ _))
  | @entered t child hd hchild =>
    have hshown := (ready.decided hcursor htask hd (.inr agrees)).1
    have viewed := tracked.viewed linked hcursor htask hd (by simp [hshown]) agrees
    rw [hcursor] at hchild
    obtain ⟨first, rest, rfl, hchildren, -, -⟩ := Place.firstChild?_eq_some linked hchild
    exact .on (viewed.entered linked hdepth hchildren hshown _)
      (upcoming_entered linked hcursor htask hpending viewed.spot viewed.pending hchildren hshown _)
  | @read t text hd hchild hslice =>
    have hshown := (ready.decided hcursor htask hd (.inr agrees)).1
    have viewed := tracked.viewed linked hcursor htask hd (by simp [hshown]) agrees
    rw [hcursor, Place.firstChild?_eq_none] at hchild
    rw [hlabel] at hslice ⊢
    exact .on (viewed.done linked hcursor hdepth (fun _ => hchild) _)
      (upcoming_done hcursor htask hpending viewed.spot viewed.pending
        (owners_leaf linked hchild hshown _ hslice))
  | @unreadable t error hd hchild hslice =>
    have hshown := (ready.decided hcursor htask hd (.inr agrees)).1
    have viewed := tracked.viewed linked hcursor htask hd (by simp [hshown]) agrees
    rw [hcursor, Place.firstChild?_eq_none] at hchild
    rw [hlabel] at hslice
    have hcoming : upcoming forest decide s present =
        id :: ownersBehind forest s.theme s.source decide s.levels.length id := by
      rw [upcoming_visit hcursor htask hpending, owners_unreadable linked hchild hshown _ hslice,
        List.singleton_append]
    exact .failed hcoming (viewed.drawnAt hdepth)

/-- Behind a node that is done with, the next sibling is taken. What was reached from the node is now
    reached from one of the siblings before. -/
theorem Tracked.toSibling (linked : forest.Linked) {present sibling : Nat} {rest : List Nat}
    (tracked : Tracked forest decide root s present) (hcursor : s.cursor = ⟨forest, id⟩)
    (htask : s.task = .onward) (hpending : s.pending = []) (hlevels : s.levels = level :: outer)
    (hlater : forest.later id = sibling :: rest) :
    Moved forest decide root s present
      ({ s with cursor := ⟨forest, sibling⟩, task := .visit }, none) := by
  obtain ⟨hparent, hrest⟩ := linked.later_of_later hlater
  obtain ⟨looking, asked, -⟩ := tracked
  simp only [htask, hcursor, hlevels] at looking asked
  obtain ⟨hahead, above, habove, hshown, looked⟩ := looking
  have hearlier := linked.earlier_next habove hlater
  rw [hlater, ← hrest] at hahead
  refine .on (n := present) ⟨?_, fun x => ?_, absurd hpending⟩ ?_
  · show Looking forest decide s.levels sibling (sibling :: forest.later sibling)
    rw [hlevels]
    exact ⟨hahead, above, hparent.trans habove, hshown, looked⟩
  · show x ∈ s.asked.map Place.id ↔
      Outside forest decide s.levels sibling (sibling :: forest.later sibling) x
    rw [asked x, hlevels, Outside, Outside, hearlier, hparent, hlater, hrest]
    simp only [List.mem_append, List.mem_singleton, or_and_right, exists_or, exists_eq_left]
    rw [← or_assoc, or_comm (a := forest.Reached decide id x)]
  · rw [upcoming_onward hcursor htask hpending, upcoming, hpending, hlevels, List.length_cons,
      ownersBehind_sibling linked hlater]
    rfl

/-- Behind the last child, its parent is done with. The tree of the parent is reached through its
    children. -/
theorem Tracked.toParent (linked : forest.Linked) {present : Nat}
    (tracked : Tracked forest decide root s present) (hcursor : s.cursor = ⟨forest, id⟩)
    (htask : s.task = .onward) (hpending : s.pending = []) (hlevels : s.levels = level :: outer)
    (hlater : forest.later id = []) (hparent : forest.parent? id = some parent) :
    Moved forest decide root s present
      ({ s with cursor := ⟨forest, parent⟩, levels := outer }, none) := by
  obtain ⟨looking, asked, -⟩ := tracked
  simp only [htask, hcursor, hlevels] at looking asked
  obtain ⟨-, above, habove, hshown, looked⟩ := looking
  obtain rfl := Option.some.inj (habove.symm.trans hparent)
  have hchildren := linked.childList_eq hparent
  rw [hlater] at hchildren
  refine .on (n := present) ⟨?_, fun x => ?_, absurd hpending⟩ ?_
  · simp only [htask]
    exact looked.looking
  · simp only [htask]
    rw [asked x, Outside, hparent, hlater, linked.reached_iff hshown, hchildren]
    simp only [Option.some.injEq, exists_eq_left', looked.around_iff, List.take_nil, List.not_mem_nil,
      false_or, List.mem_append, List.mem_singleton, or_and_right, exists_or, exists_eq_left]
    simp only [or_assoc, or_comm, or_left_comm]
  · rw [upcoming_onward hcursor htask hpending, hlevels, List.length_cons, ownersBehind, hlater,
      hparent, upcoming, hpending]
    simp only [htask]
    rfl

/-- A walk that goes on keeps track. -/
theorem moved_onward (linked : forest.Linked) {present : Nat} (htask : s.task = .onward)
    (hpending : s.pending = []) (below : Below forest root s)
    (tracked : Tracked forest decide root s present) :
    Moved forest decide root s present (checked s.onward) := by
  obtain ⟨id, hcursor⟩ := Place.exists_eq_mk below.inForest
  have hleft := left s
  generalize s.onward = result at hleft ⊢
  cases hleft with
  | ended hlevels =>
    have hdepth := below.depth
    rw [hcursor, hlevels] at hdepth
    obtain rfl := Option.some.inj hdepth
    have asked := tracked.asked
    simp only [htask, hcursor, hlevels] at asked
    refine .on (n := present) ⟨trivial, fun x => ?_, absurd hpending⟩ ?_
    · show x ∈ s.asked.map Place.id ↔ forest.Reached decide id x
      rw [asked x, Outside, or_false]
    · rw [upcoming_onward hcursor htask hpending, hlevels, upcoming, hpending]
      rfl
  | @toSibling level outer next hlevels hbeside =>
    rw [hcursor] at hbeside
    obtain ⟨sibling, rest, rfl, hlater, -, -⟩ := Place.nextSibling?_eq_some linked hbeside
    exact tracked.toSibling linked hcursor htask hpending hlevels hlater
  | @toParent level outer parent hlevels hbeside habove =>
    rw [hcursor] at hbeside habove
    obtain ⟨above, hparent, rfl⟩ := Place.parent?_eq_some.mp habove
    exact tracked.toParent linked hcursor htask hpending hlevels (Place.nextSibling?_eq_none.mp hbeside)
      hparent
  | @strayed level outer hlevels hbeside habove =>
    -- A node inside of a level has a parent.
    have looking := tracked.looking
    simp only [htask, hcursor, hlevels] at looking
    obtain ⟨-, parent, hparent, -⟩ := looking
    rw [hcursor, Place.parent?_eq_none, hparent] at habove
    cases habove

theorem Moved.of_counted {present moves : Nat} {result : Stream Place × Option Error}
    (moved : Moved forest decide root { s with moves } present result) :
    Moved forest decide root s present result := by
  cases moved with
  | on tracked owners => exact .on tracked owners
  | failed owners drawn => exact .failed owners drawn

/-- **Every move keeps track** of what the filter has been asked about. -/
theorem moved_advance (linked : forest.Linked) {present : Nat} (hactive : s.task ≠ .stop)
    (hpending : s.pending = []) (ready : Ready forest decide s) (below : Below forest root s)
    (tracked : Tracked forest decide root s present) (agrees : s.advance.1.Agrees decide) :
    Moved forest decide root s present s.advance := by
  have hready : Ready forest decide { s with moves := s.moves - 1 } := ⟨ready.inForest, ready.known⟩
  have hbelow : Below forest root { s with moves := s.moves - 1 } := ⟨below.inForest, below.depth⟩
  have htracked : Tracked forest decide root { s with moves := s.moves - 1 } present :=
    ⟨tracked.looking, tracked.asked, tracked.drawn⟩
  cases htask : s.task with
  | visit =>
    rw [advance_visit htask] at agrees ⊢
    exact (moved_visit (s := { s with moves := s.moves - 1 }) linked htask hpending hready hbelow
      htracked agrees).of_counted
  | onward =>
    rw [advance_onward htask]
    exact (moved_onward (s := { s with moves := s.moves - 1 }) linked htask hpending hbelow
      htracked).of_counted
  | stop => exact absurd htask hactive

/-! ### Every call keeps track -/

/-- What a call of `next` comes to: a line or an error of the next of the nodes to come, with what is
    around that node decided; or the end of the walk. -/
inductive Told (forest : Forest) (decide : Nat → Visibility) (root : Nat) (s : Stream Place)
    (present : Nat) : Option (Except Error Line) × Stream Place → Prop
  | line {t : Stream Place} {line : Line} {n : Nat} (tracked : Tracked forest decide root t n)
      (owners : upcoming forest decide s present = n :: upcoming forest decide t n)
      (drawn : DrawnAt forest decide root t.asked n) :
      Told forest decide root s present (some (.ok line), t)
  | failed {t : Stream Place} {error : Error} {n : Nat} {rest : List Nat}
      (owners : upcoming forest decide s present = n :: rest)
      (drawn : DrawnAt forest decide root t.asked n) :
      Told forest decide root s present (some (.error error), t)
  | ended {t : Stream Place} {n : Nat} (tracked : Tracked forest decide root t n)
      (stop : t.task = .stop) : Told forest decide root s present (none, t)

theorem told_pending {present : Nat} (tracked : Tracked forest decide root s present) {line : Line}
    {rest : List Line} (hpending : s.pending = line :: rest) :
    Told forest decide root s present (some (.ok line), { s with pending := rest }) := by
  have drawn : DrawnAt forest decide root s.asked present := tracked.drawn (by simp [hpending])
  have howners : upcoming forest decide s present =
      present :: upcoming forest decide { s with pending := rest } present := by
    rw [upcoming, hpending]
    rfl
  exact .line ⟨tracked.looking, tracked.asked, fun _ => drawn⟩ howners drawn

/-- The nodes to come are the same after a move that succeeds. -/
theorem Told.of_owners {present n : Nat} {result : Option (Except Error Line) × Stream Place}
    (told : Told forest decide root t n result)
    (howners : upcoming forest decide s present = upcoming forest decide t n) :
    Told forest decide root s present result := by
  cases told with
  | line tracked owners drawn => exact .line tracked (howners.trans owners) drawn
  | failed owners drawn => exact .failed (howners.trans owners) drawn
  | ended tracked stop => exact .ended tracked stop

/-- **Every search keeps track**, if it may move often enough. -/
theorem told_search (linked : forest.Linked) (fuel : Nat) {present : Nat} (ready : Ready forest decide s)
    (below : Below forest root s) (tracked : Tracked forest decide root s present)
    (hfuel : movesLeft forest s ≤ fuel) (agrees : (search fuel s).2.Agrees decide) :
    Told forest decide root s present (search fuel s) := by
  induction fuel generalizing s present with
  | zero =>
    cases hpending : s.pending with
    | nil =>
      -- Without moves left the walk has stopped.
      rw [search_zero hpending]
      exact .ended tracked (movesLeft_eq_zero.mp (Nat.le_zero.mp hfuel))
    | cons line rest =>
      rw [search_pending 0 hpending]
      exact told_pending tracked hpending
  | succ fuel ih =>
    cases hpending : s.pending with
    | cons line rest =>
      rw [search_pending _ hpending]
      exact told_pending tracked hpending
    | nil =>
      by_cases htask : s.task = .stop
      · rw [search_stop _ hpending htask]
        exact .ended tracked htask
      have hleft := movesLeft_advance linked ready.inForest htask
      have hbelow := (below_kept linked root).advance s below
      rcases hmove : s.advance with ⟨t, _ | error⟩ <;> rw [hmove] at hleft hbelow
      · rw [search_moved fuel hpending htask hmove] at agrees ⊢
        -- The answers so far are among those at the end of the search.
        have hagrees : s.advance.1.Agrees decide := by
          rw [hmove]
          exact agrees.of_continues (search_keeps (continues_kept t) fuel (Continues.refl t))
        have hready := (faithful_advance linked ready hagrees).ready
        have hmoved := moved_advance linked htask hpending ready below tracked hagrees
        rw [hmove] at hready hmoved
        cases hmoved with
        | on htracked howners =>
          exact (ih hready hbelow htracked (by omega) agrees).of_owners howners
      · rw [search_failed fuel hpending htask hmove] at agrees ⊢
        have hmoved := moved_advance linked htask hpending ready below tracked
          (by rw [hmove]; exact agrees)
        rw [hmove] at hmoved
        cases hmoved with
        | failed howners drawn => exact .failed howners drawn

/-- A walk of which one knows what it has asked about, and that will follow these decisions. -/
structure Traced (forest : Forest) (decide : Nat → Visibility) (root : Nat) (s : Stream Place)
    (present : Nat) : Prop where
  ready : Ready forest decide s
  funded : Funded forest root s
  follows : s.Follows decide
  tracked : Tracked forest decide root s present

theorem Traced.told (linked : forest.Linked) {present : Nat}
    (traced : Traced forest decide root s present) : Told forest decide root s present s.next :=
  told_search linked s.moves traced.ready traced.funded.below traced.tracked traced.funded.enough
    (traced.follows 1)

/-- After a call the walk goes on in the same way. -/
theorem Traced.next (linked : forest.Linked) {present n : Nat}
    (traced : Traced forest decide root s present)
    (tracked : Tracked forest decide root s.next.2 n) : Traced forest decide root s.next.2 n where
  ready := (answered_search linked s.moves traced.ready traced.funded.enough (traced.follows 1)).ready
  funded := search_keeps (funded_kept linked root) s.moves traced.funded
  follows k := traced.follows (k + 1)
  tracked := tracked

/-- After as many calls as there are entries up to one of them, what has been decided is what is around
    its node. -/
theorem Traced.drawnAt (linked : forest.Linked) {present : Nat}
    (traced : Traced forest decide root s present) {report : Report}
    (yields : s.Yields (Report.entries report)) {k : Nat} (hk : k < (Report.entries report).length) :
    ∃ n, (upcoming forest decide s present)[k]? = some n ∧
      DrawnAt forest decide root (s.after (k + 1)).asked n := by
  induction k generalizing s present report with
  | zero =>
    have told := traced.told linked
    obtain ⟨hfirst, -⟩ := yields.next
    rw [List.head?_eq_getElem?, List.getElem?_eq_getElem hk] at hfirst
    show ∃ n, _ ∧ DrawnAt forest decide root s.next.2.asked n
    generalize s.next = result at told hfirst
    cases told with
    | line _ howners drawn => exact ⟨_, by rw [howners]; rfl, drawn⟩
    | failed howners drawn => exact ⟨_, by rw [howners]; rfl, drawn⟩
    | ended => cases hfirst
  | succ k ih =>
    have told := traced.told linked
    obtain ⟨hfirst, hrest⟩ := yields.next
    show ∃ n, _ ∧ DrawnAt forest decide root (s.next.2.after (k + 1)).asked n
    have hnext := fun n => traced.next (n := n) linked
    obtain ⟨_ | ⟨line, lines⟩, error⟩ := report
    -- An error is the last entry.
    · cases error <;> simp [Report.entries] at hk
    · generalize s.next = result at told hfirst hrest hnext
      cases told with
      | @line t _ n tracked howners _ =>
        have hmore : t.Yields (Report.entries (lines, error)) := hrest
        rw [howners, List.getElem?_cons_succ]
        exact ih (hnext n tracked) hmore (Nat.lt_of_succ_lt_succ hk)
      | failed => cases hfirst
      | ended => cases hfirst

/-- After all lines of a walk without error, what has been decided is what is reached. -/
theorem Traced.reached (linked : forest.Linked) {present : Nat}
    (traced : Traced forest decide root s present) {lines : List Line}
    (yields : s.Yields (Report.entries (lines, none))) {k : Nat} (hk : lines.length ≤ k) (x : Nat) :
    x ∈ (s.after (k + 1)).asked.map Place.id ↔ forest.Reached decide root x := by
  induction k generalizing s present lines with
  | zero =>
    have told := traced.told linked
    obtain ⟨hfirst, -⟩ := yields.next
    obtain rfl := List.eq_nil_of_length_eq_zero (Nat.le_zero.mp hk)
    show x ∈ s.next.2.asked.map Place.id ↔ _
    generalize s.next = result at told hfirst
    cases told with
    | line => cases hfirst
    | failed => cases hfirst
    | ended tracked stop =>
      have hasked := tracked.asked x
      simpa only [stop] using hasked
  | succ k ih =>
    have told := traced.told linked
    obtain ⟨hfirst, hrest⟩ := yields.next
    have hnext := fun n => traced.next (n := n) linked
    have htail : (Report.entries (lines, none)).tail = Report.entries (lines.tail, none) := by
      cases lines <;> rfl
    have hlength : lines.tail.length ≤ k := by
      rw [List.length_tail]
      omega
    rw [htail] at hrest
    show x ∈ (s.next.2.after (k + 1)).asked.map Place.id ↔ _
    generalize s.next = result at told hfirst hrest hnext
    cases told with
    | line tracked _ _ => exact ih (hnext _ tracked) hrest hlength
    | failed => cases lines <;> cases hfirst
    | ended tracked _ => exact ih (hnext _ tracked) hrest hlength

end Stream

example :
    (List.range 4).map (fun k => (((Stream.start (⟨.sapling, 0⟩ : Place) "xy" .terminal
      (Filter.ofSequence [.shown, .hidden])).after k).asked.map Place.id)) =
      [[], [0], [3, 1, 0], [3, 1, 0]] := by
  decide +kernel

end BoxTree
