import BoxTree.Proofs.ReachedNodes
import BoxTree.Proofs.StreamDecisions

namespace BoxTree

/-!
# Looking ahead

A level looks ahead only from a node of which a line is drawn, and then as far as the first sibling that
is not hidden.

* `Stream.Looking`, `Stream.Looked` — how far the levels around a node have looked ahead.
* `Stream.Outside` — what has been decided outside of the tree of a node.
* `Stream.Looked.around_iff` — once all levels have looked ahead, that and the node are what is around
  it.
* `Stream.asked_decide`, `Stream.asked_lookAhead` — the questions of one move.
-/

namespace Stream

variable {forest : Forest} {decide : Nat → Visibility} {s t : Stream Place} {id x : Nat}
  {levels outer : List Level} {level : Level}

/-! ### How far the levels have looked -/

/-- The levels around a node of which a line has been drawn: each has looked ahead to the first sibling
    that is not hidden, and no further. -/
def Looked (forest : Forest) (decide : Nat → Visibility) : List Level → Nat → Prop
  | [], _ => True
  | level :: outer, id =>
    level.ahead.length = (untilShown decide (forest.later id)).length ∧
      ∃ parent, forest.parent? id = some parent ∧ decide parent = .shown ∧
        Looked forest decide outer parent

/-- The levels around a node of which no line has been drawn, or none any more: the innermost one has
    looked at some of these nodes, at most up to the first that is not hidden. -/
def Looking (forest : Forest) (decide : Nat → Visibility) (levels : List Level) (id : Nat)
    (nodes : List Nat) : Prop :=
  match levels with
  | [] => True
  | level :: outer =>
    level.ahead.length ≤ (untilShown decide nodes).length ∧
      ∃ parent, forest.parent? id = some parent ∧ decide parent = .shown ∧
        Looked forest decide outer parent

/-- What has been decided outside of the tree of a node, if the innermost level has looked at some of
    these nodes. -/
def Outside (forest : Forest) (decide : Nat → Visibility) (levels : List Level) (id : Nat)
    (nodes : List Nat) (x : Nat) : Prop :=
  match levels with
  | [] => False
  | level :: outer =>
    (∃ sibling ∈ forest.earlier id, forest.Reached decide sibling x) ∨
      x ∈ nodes.take level.ahead.length ∨
      ∃ above, forest.parent? id = some above ∧ forest.Around decide outer.length above x

theorem Looked.looking (looked : Looked forest decide levels id) :
    Looking forest decide levels id (forest.later id) := by
  cases levels with
  | nil => trivial
  | cons level outer => exact ⟨looked.1.le, looked.2⟩

/-- Where the levels have looked ahead, what is around a node is the node and what is outside of it. -/
theorem Looked.around_iff (looked : Looked forest decide levels id) :
    forest.Around decide levels.length id x ↔
      x = id ∨ Outside forest decide levels id (forest.later id) x := by
  cases levels with
  | nil => simp [Forest.Around, Outside]
  | cons level outer =>
    have hknown := take_length_untilShown decide (forest.later id)
    rw [← looked.1] at hknown
    rw [List.length_cons, Forest.Around, Forest.Beside, Outside, hknown, or_assoc, or_assoc]

/-- Only the decisions made ahead matter. -/
theorem looked_congr {levels' : List Level} (h : levels'.map Level.ahead = levels.map Level.ahead)
    (looked : Looked forest decide levels id) : Looked forest decide levels' id := by
  induction levels generalizing levels' id with
  | nil =>
    obtain rfl := List.map_eq_nil_iff.mp h
    trivial
  | cons level outer ih =>
    obtain ⟨level', outer', rfl, hlevel, houter⟩ := List.map_eq_cons_iff.mp h
    obtain ⟨hahead, parent, hparent, hshown, habove⟩ := looked
    exact ⟨by rw [hlevel]; exact hahead, parent, hparent, hshown, ih houter habove⟩

/-! ### The questions of a move -/

/-- Deciding on a node adds it to what has been decided. What is known ahead then is about the siblings
    behind it, and nothing if the node is not hidden. -/
theorem asked_decide (hcursor : s.cursor = ⟨forest, id⟩)
    (looking : Looking forest decide s.levels id (id :: forest.later id))
    (asked : ∀ x, x ∈ s.asked.map Place.id ↔
      Outside forest decide s.levels id (id :: forest.later id) x) :
    (∀ x, x ∈ s.decide.2.asked.map Place.id ↔
        x = id ∨ Outside forest decide s.decide.2.levels id (forest.later id) x) ∧
      Looking forest decide s.decide.2.levels id
        (if decide id = .hidden then forest.later id else []) := by
  unfold Stream.decide
  split
  · next isLast begun decision ahead outer hlevels =>
    rw [hlevels] at looking asked
    obtain ⟨hahead, habove⟩ := looking
    refine ⟨fun x => ?_, ?_, habove⟩
    · rw [asked x, Outside, Outside, List.length_cons, List.take_succ_cons, List.mem_cons, or_assoc,
        or_left_comm]
    · split
      · next hhidden =>
        rw [untilShown_cons_hidden hhidden] at hahead
        exact Nat.le_of_succ_le_succ hahead
      · next hne =>
        -- The decision made ahead was the last one.
        rw [untilShown_cons_of_ne hne] at hahead
        exact Nat.le_of_succ_le_succ hahead
  · next hnone =>
    cases hlevels : s.levels with
    | nil =>
      rw [hlevels] at asked
      refine ⟨fun x => ?_, trivial⟩
      rw [List.map_cons, List.mem_cons, asked x, hcursor, Outside, Outside]
    | cons level outer =>
      obtain ⟨isLast, begun, _ | ⟨decision, ahead⟩⟩ := level
      · rw [hlevels] at looking asked
        refine ⟨fun x => ?_, Nat.zero_le _, looking.2⟩
        rw [List.map_cons, List.mem_cons, asked x, hcursor, Outside, Outside, List.length_nil,
          List.take_zero, List.take_zero]
      · exact absurd hlevels (hnone _ _ _ _ _)

/-- Looking for a node that is shown asks about the nodes up to the first that is not hidden. -/
theorem askUntilShown_asks {filter : Filter} {places asked : List Place}
    (agrees : ∀ answer ∈ answers filter (askUntilShown filter places asked).2,
      decide answer.1.id = answer.2) :
    let found := untilShown decide (places.map Place.id)
    let result := askUntilShown filter places asked
    result.1.length = found.length ∧ result.2.map Place.id = found.reverse ++ asked.map Place.id := by
  induction places generalizing asked with
  | nil => exact ⟨rfl, rfl⟩
  | cons place rest ih =>
    -- The answer on the first place is among all answers.
    have hfirst : decide place.id = ask filter asked place := by
      have hmem : (place, ask filter asked place) ∈ answers filter (place :: asked) :=
        List.mem_cons_self ..
      refine agrees _ ((answers_suffix filter ?_).subset hmem)
      unfold askUntilShown
      split
      · exact askUntilShown_suffix filter rest (place :: asked)
      · exact List.suffix_rfl
    unfold askUntilShown at agrees ⊢
    rw [List.map_cons, untilShown, hfirst]
    cases hask : ask filter asked place with
    | hidden =>
      rw [hask] at agrees
      obtain ⟨hlength, hasked⟩ := ih agrees
      simp only [if_pos]
      refine ⟨by rw [List.length_cons, List.length_cons, hlength], ?_⟩
      rw [hasked, List.map_cons, List.reverse_cons, List.append_assoc, List.singleton_append]
    | shown | collapsed => exact ⟨rfl, rfl⟩

/-- A level that knows nothing ahead asks about the siblings up to the first that is not hidden. -/
theorem lookAhead_asks (linked : forest.Linked) (hcursor : t.cursor = ⟨forest, id⟩)
    (hlevels : t.levels = level :: outer) (hahead : level.ahead = [])
    (agrees : t.lookAhead.Agrees decide) :
    let found := untilShown decide (forest.later id)
    (∃ level, t.lookAhead.levels = level :: outer ∧ level.ahead.length = found.length) ∧
      t.lookAhead.asked.map Place.id = found.reverse ++ t.asked.map Place.id := by
  have hids : ((forest.later id).map (Place.mk forest)).map Place.id = forest.later id := by
    rw [List.map_map]
    exact List.map_id _
  unfold Agrees lookAhead at agrees
  unfold lookAhead
  simp only [hlevels, hahead, Level.showsMore, List.any_nil, Bool.false_or, List.isEmpty_nil,
    Bool.true_and, hcursor, Place.hasNextSibling_eq, Bool.not_not, List.isEmpty_iff, List.length_nil,
    List.drop_zero, List.nil_append, Place.following_eq linked] at agrees ⊢
  split at agrees
  · next hnone =>
    rw [if_pos hnone, hnone]
    exact ⟨⟨_, rfl, rfl⟩, rfl⟩
  · next hsome =>
    rw [if_neg hsome]
    obtain ⟨hlength, hasked⟩ := askUntilShown_asks agrees
    rw [hids] at hlength hasked
    exact ⟨⟨_, rfl, hlength⟩, hasked⟩

/-- Looking ahead from a node that is not hidden decides on what is around the node. -/
theorem asked_lookAhead (linked : forest.Linked) (hcursor : t.cursor = ⟨forest, id⟩)
    (looking : Looking forest decide t.levels id [])
    (asked : ∀ x, x ∈ t.asked.map Place.id ↔
      x = id ∨ Outside forest decide t.levels id (forest.later id) x)
    (agrees : t.lookAhead.Agrees decide) :
    Looked forest decide t.lookAhead.levels id ∧
      ∀ x, x ∈ t.lookAhead.asked.map Place.id ↔
        forest.Around decide t.lookAhead.levels.length id x := by
  cases hlevels : t.levels with
  | nil =>
    have hsame : t.lookAhead = t := by
      unfold lookAhead
      rw [hlevels]
    rw [hlevels] at asked
    rw [hsame, hlevels]
    exact ⟨trivial, fun x => by rw [asked x, Outside, or_false]; rfl⟩
  | cons level outer =>
    rw [hlevels] at looking asked
    obtain ⟨hnone, habove⟩ := looking
    have hahead : level.ahead = [] := List.eq_nil_of_length_eq_zero (Nat.le_zero.mp hnone)
    obtain ⟨⟨after, hafter, hlength⟩, hasked⟩ := lookAhead_asks linked hcursor hlevels hahead agrees
    rw [hafter]
    have looked : Looked forest decide (after :: outer) id := ⟨hlength, habove⟩
    refine ⟨looked, fun x => ?_⟩
    -- The siblings asked about now are all that is known ahead.
    rw [looked.around_iff, hasked, List.mem_append, List.mem_reverse, asked x, Outside, Outside, hahead,
      hlength, take_length_untilShown, List.length_nil, List.take_zero]
    simp only [List.not_mem_nil, false_or]
    rw [or_left_comm, or_left_comm (a := x ∈ untilShown decide (forest.later id))]

end Stream

end BoxTree
