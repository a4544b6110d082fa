import BoxTree.Line.Outline
import BoxTree.Proofs.StreamDecisions

namespace BoxTree

/-!
# What the levels of a walk know

Each level draws the box around its present child. For that it has to know whether a later sibling is
shown, and whether a line of the child has been drawn.

* `Level.railed`, `Level.draw_begun`, `Level.draw_fresh` — lines inside the boxes of all levels.
* `Stream.Framed`, `Stream.Known` — what the levels around a node know of the siblings behind it.
* `Stream.decided` — deciding on a node keeps what is known of those behind it.
* `Stream.boxed` — the lines of a node in its boxes; `Stream.drawn_lookAhead` — drawing them.
-/

/-! ### Boxes -/

namespace Level

/-- A line inside the boxes of some levels. -/
def railed (tree : Color) (levels : List Level) (line : Line) : Line :=
  ⟨connectors tree levels ++ line.segments⟩

/-- Without levels there are no boxes. -/
theorem map_railed_nil (tree : Color) (lines : List Line) : lines.map (railed tree []) = lines :=
  List.map_id lines

/-- The box of the innermost level is next to the line. -/
theorem railed_cons (tree : Color) (level : Level) (outer : List Level) (line : Line) :
    railed tree (level :: outer) line =
      railed tree outer ⟨.colored level.connector tree :: line.segments⟩ := by
  simp [railed, connectors]

/-- Where a line has been drawn, another one changes nothing. -/
theorem map_begin {levels : List Level} (begun : ∀ level ∈ levels, level.begun = true) :
    levels.map begin = levels := by
  have hsame : ∀ level ∈ levels, begin level = id level := by
    intro level hlevel
    show { level with begun := true } = level
    rw [← begun level hlevel]
  rw [List.map_congr_left hsame, List.map_id]

/-- Once lines have been drawn at all levels, every line gets the same boxes. -/
theorem draw_begun {levels : List Level} (begun : ∀ level ∈ levels, level.begun = true)
    (tree : Color) (lines : List Line) :
    draw tree levels lines = (lines.map (railed tree levels), levels) := by
  induction lines with
  | nil => rfl
  | cons line rest ih =>
    rw [draw, map_begin begun, ih]
    rfl

/-- The first lines of a child are a branch of the box. -/
theorem draw_fresh {outer : List Level} (begun : ∀ level ∈ outer, level.begun = true)
    (tree : Color) (isLast : Bool) (ahead : List Visibility) (first : Line) (rest : List Line) :
    draw tree (⟨isLast, false, ahead⟩ :: outer) (first :: rest) =
      ((branched tree isLast (first :: rest)).map (railed tree outer),
        ⟨isLast, true, ahead⟩ :: outer) := by
  have hsame : (⟨isLast, false, ahead⟩ :: outer : List Level).map begin =
      ⟨isLast, true, ahead⟩ :: outer := congrArg _ (map_begin begun)
  have hall : ∀ level ∈ (⟨isLast, true, ahead⟩ :: outer : List Level), level.begun = true := by
    intro level hlevel
    obtain rfl | hlevel := List.mem_cons.mp hlevel
    · rfl
    · exact begun level hlevel
  -- After the first line every level has begun.
  rw [draw, hsame, draw_begun hall]
  cases isLast <;> simp [branched, railed, connectors, connector, indent]

end Level

namespace Stream

variable {forest : Forest} {decide : Nat → Visibility} {s t : Stream Place} {id parent : Nat}
  {levels outer : List Level} {level : Level}

/-! ### What the levels know -/

/-- No sibling behind a node is shown. -/
def lastShown (forest : Forest) (decide : Nat → Visibility) (id : Nat) : Bool :=
  (forest.later id).all (decide · = .hidden)

/-- The levels around a node of which lines have been drawn: each knows whether its child is the last
    one shown, and decisions on the first few siblings behind the child. -/
def Framed (forest : Forest) (decide : Nat → Visibility) : List Level → Nat → Prop
  | [], _ => True
  | level :: outer, id =>
    (level.begun = true ∧ level.isLast = lastShown forest decide id ∧
      level.ahead <+: (forest.later id).map decide) ∧
      ∃ parent, forest.parent? id = some parent ∧ Framed forest decide outer parent

/-- The levels around a node of which no line has been drawn, or none any more. The innermost one
    knows decisions on the first of some nodes. -/
def Known (forest : Forest) (decide : Nat → Visibility) (levels : List Level) (id : Nat)
    (nodes : List Nat) : Prop :=
  match levels with
  | [] => True
  | level :: outer =>
    level.ahead <+: nodes.map decide ∧
      ∃ parent, forest.parent? id = some parent ∧ Framed forest decide outer parent

/-- Levels around a node of which lines have been drawn know enough to leave it. -/
theorem Framed.known (framed : Framed forest decide levels id) :
    Known forest decide levels id (forest.later id) := by
  cases levels with
  | nil => trivial
  | cons level outer => exact ⟨framed.1.2.2, framed.2⟩

/-- Where lines of a node have been drawn, every level has begun. -/
theorem Framed.begun (framed : Framed forest decide levels id) : ∀ level ∈ levels, level.begun = true := by
  induction levels generalizing id with
  | nil => simp
  | cons level outer ih =>
    obtain ⟨⟨hbegun, -⟩, parent, -, houter⟩ := framed
    intro other hother
    obtain rfl | hother := List.mem_cons.mp hother
    · exact hbegun
    · exact ih houter other hother

/-- A walk once the node under its cursor has been decided on. -/
structure Decided (forest : Forest) (decide : Nat → Visibility) (s t : Stream Place) (id : Nat) :
    Prop where
  spot : SameSpot s t
  pending : t.pending = s.pending
  tail : t.levels.tail = s.levels.tail
  known : Known forest decide t.levels id (forest.later id)

/-- The decision on a node is the one made ahead or the next answer. -/
theorem decided (hcursor : s.cursor = ⟨forest, id⟩)
    (known : Known forest decide s.levels id (id :: forest.later id))
    (agrees : s.decide.2.Agrees decide) :
    s.decide.1 = decide id ∧ Decided forest decide s s.decide.2 id := by
  have hspot := sameSpot_decide s
  unfold Stream.decide at hspot agrees ⊢
  split at agrees
  · next isLast begun decision ahead outer hlevels =>
    rw [hlevels] at known
    obtain ⟨hahead, habove⟩ := known
    -- The decision made ahead is taken from the level.
    obtain ⟨hdecision, hrest⟩ := List.cons_prefix_cons.mp hahead
    simp only [hlevels] at hspot ⊢
    exact ⟨hdecision, hspot, rfl, by rw [hlevels]; rfl, hrest, habove⟩
  · next hnone =>
    -- The level knows nothing of the node, so the filter is asked.
    have hanswer : decide s.cursor.id = ask s.filter s.asked s.cursor :=
      agrees (s.cursor, ask s.filter s.asked s.cursor) (List.mem_cons_self ..)
    rw [hcursor] at hanswer
    have hknown : Known forest decide s.levels id (forest.later id) := by
      cases hlevels : s.levels with
      | nil => trivial
      | cons level outer =>
        obtain ⟨isLast, begun, _ | ⟨decision, ahead⟩⟩ := level
        · rw [hlevels] at known
          exact ⟨List.nil_prefix, known.2⟩
        · exact absurd hlevels (hnone _ _ _ _ _)
    have hdecision : ask s.filter s.asked s.cursor = decide id := by rw [hcursor, hanswer]
    exact ⟨hdecision, ⟨rfl, rfl, rfl, rfl, List.suffix_cons _ _⟩, rfl, rfl, hknown⟩

/-! ### Lines inside of levels -/

/-- The lines of a node inside of its levels: a branch of the innermost box, and the rails of the
    others. -/
def boxed (forest : Forest) (decide : Nat → Visibility) (tree : Color) (levels : List Level) (id : Nat)
    (lines : List Line) : List Line :=
  match levels with
  | [] => lines
  | _ :: outer => (branched tree (lastShown forest decide id) lines).map (Level.railed tree outer)

/-- No lines stay no lines in any boxes. -/
theorem boxed_nil (tree : Color) (levels : List Level) (id : Nat) :
    boxed forest decide tree levels id [] = [] := by
  cases levels <;> rfl

/-- Only the outer levels matter to the lines. -/
theorem boxed_congr {levels' : List Level} (hlength : levels'.length = levels.length)
    (htail : levels'.tail = levels.tail) (tree : Color) (id : Nat) :
    boxed forest decide tree levels' id = boxed forest decide tree levels id := by
  funext lines
  cases levels <;> cases levels' <;> simp_all [boxed]

/-- Lines behind the first one get a rail from the innermost level, too. -/
theorem boxed_cons (framed : Framed forest decide levels id) (tree : Color) (first : Line)
    (rest : List Line) :
    boxed forest decide tree levels id (first :: rest) =
      boxed forest decide tree levels id [first] ++ rest.map (Level.railed tree levels) := by
  cases levels with
  | nil =>
    rw [Level.map_railed_nil]
    rfl
  | cons level outer =>
    obtain ⟨⟨hbegun, hlast, -⟩, -⟩ := framed
    have hconnector : level.connector = if lastShown forest decide id then "  " else "│ " := by
      rw [Level.connector, hbegun, hlast]
      cases lastShown forest decide id <;> rfl
    simp only [boxed, branched, List.map_cons, List.map_nil, List.map_map, List.singleton_append]
    congr 2
    funext line
    rw [Level.railed_cons, hconnector]
    rfl

/-- What a level knows after looking ahead: decisions on the first few siblings, enough of them to
    tell whether one is shown. -/
theorem lastShown_eq {ahead more : List Visibility}
    (hahead : ahead <+: (forest.later id).map decide)
    (hmore : more = (((forest.later id).drop ahead.length).take more.length).map decide)
    (hall : (ahead ++ more).any (· ≠ .hidden) = false →
      (forest.later id).length ≤ ahead.length + more.length) :
    ahead ++ more <+: (forest.later id).map decide ∧
      (!(ahead ++ more).any (· ≠ .hidden)) = lastShown forest decide id := by
  -- Old and new decisions together are those on the first few siblings.
  have htake : ahead ++ more = ((forest.later id).take (ahead.length + more.length)).map decide := by
    rw [List.take_add, List.map_append, ← hmore, List.map_take, ← List.prefix_iff_eq_take.mp hahead]
  refine ⟨?_, ?_⟩
  · rw [htake, List.map_take]
    exact List.take_prefix _ _
  · unfold lastShown
    cases hany : (ahead ++ more).any (· ≠ .hidden) with
    -- If none of them is shown, they are the decisions on all siblings.
    | false =>
      rw [List.take_of_length_le (hall hany)] at htake
      rw [htake] at hany
      simpa using hany
    | true =>
      obtain ⟨decision, hmem, hshown⟩ := List.any_eq_true.mp hany
      rw [htake, List.mem_map] at hmem
      obtain ⟨sibling, hsibling, rfl⟩ := hmem
      have hlater : sibling ∈ forest.later id := List.mem_of_mem_take hsibling
      simp only [Bool.not_true, Bool.false_eq, List.all_eq_false]
      exact ⟨sibling, hlater, by simpa using hshown⟩

/-- Looking ahead draws nothing. -/
theorem pending_lookAhead {κ : Type} [Cursor κ] (s : Stream κ) : s.lookAhead.pending = s.pending := by
  unfold lookAhead
  split <;> rfl

/-- A walk once lines of the node under its cursor have been drawn. -/
structure Drawn (forest : Forest) (decide : Nat → Visibility) (s t : Stream Place) (id : Nat)
    (lines : List Line) : Prop where
  spot : SameSpot s t
  pending : t.pending = s.pending ++ boxed forest decide s.theme.tree s.levels id lines
  tail : t.levels.tail = s.levels.tail
  framed : Framed forest decide t.levels id

/-- **Drawing a node.** Once it is known whether a later sibling is shown, the lines of a node come out
    in their boxes, and the levels are those around a node that has been drawn. -/
theorem drawn_lookAhead (linked : forest.Linked) (hcursor : s.cursor = ⟨forest, id⟩)
    (known : Known forest decide s.levels id (forest.later id)) (agrees : s.lookAhead.Agrees decide)
    (first : Line) (rest : List Line) :
    Drawn forest decide s (s.lookAhead.draw (first :: rest)) id (first :: rest) := by
  have hspot := (sameSpot_lookAhead s).trans (sameSpot_draw s.lookAhead (first :: rest))
  cases hlevels : s.levels with
  | nil =>
    -- At the start there are no siblings and no boxes.
    have hsame : s.lookAhead = s := by
      unfold lookAhead
      rw [hlevels]
    have hdraw : Level.draw s.theme.tree s.levels (first :: rest) = (first :: rest, []) := by
      rw [hlevels, Level.draw_begun (by simp), Level.map_railed_nil]
    rw [hsame] at hspot ⊢
    refine ⟨hspot, ?_, ?_, ?_⟩ <;> unfold draw <;> rw [hdraw]
    · rw [hlevels]
      rfl
    · rw [hlevels]
    · trivial
  | cons level outer =>
    rw [hlevels] at known
    obtain ⟨hahead, parent, hparent, houter⟩ := known
    obtain ⟨more, hlook, hall, hdecide⟩ := lookAhead_spec linked hcursor hlevels
    obtain ⟨hfirst, hlast⟩ := lastShown_eq hahead (hdecide decide agrees) hall
    have hdraw := Level.draw_fresh houter.begun s.theme.tree (lastShown forest decide id)
      (level.ahead ++ more) first rest
    rw [hlast] at hlook
    rw [hlook] at hspot ⊢
    refine ⟨hspot, ?_, ?_, ?_⟩ <;> unfold draw <;> dsimp only <;> rw [hdraw]
    · rw [hlevels]
      rfl
    · rw [hlevels]
      rfl
    · exact ⟨⟨rfl, rfl, hfirst⟩, parent, hparent, houter⟩

end Stream

end BoxTree
