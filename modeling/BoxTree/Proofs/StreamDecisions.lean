import BoxTree.Proofs.CursorReturns

namespace BoxTree

/-!
# The decisions of a walk

A walk asks the filter about a node when it takes the node, or earlier, when it looks for a sibling
that is shown. Either way it asks about each node once.

* `Stream.Agrees` — decisions that agree with all answers so far.
* `Stream.askUntilShown_spec`, `Stream.lookAhead_spec` — what is asked when looking ahead, and what the
  level knows afterwards.
* `Stream.toDecide` — the nodes that may still be asked about.
* `Stream.asksOnce_kept` — a node that was asked about is not asked about again.
* `Stream.exists_follows` — hence there is one decision on each node that all answers of a walk agree
  with.
-/

namespace Forest

variable {forest : Forest}

/-- The nodes still to be decided in the trees of siblings of which the first `known` are decided. -/
def undecided (forest : Forest) (known : Nat) (siblings : List Nat) : List Nat :=
  (siblings.take known).flatMap forest.below ++
    (siblings.drop known).flatMap fun id => (forest.tree id).preorder

/-- The nodes still to be decided once a node inside of some levels is done with. -/
def undecidedBehind (forest : Forest) : List Level → Nat → List Nat
  | [], _ => []
  | level :: outer, id =>
    forest.undecided level.ahead.length (forest.later id) ++
      (forest.parent? id).elim [] (undecidedBehind forest outer)

/-- Where the decisions of two stacks of levels reach equally far, the same nodes are left. -/
theorem undecidedBehind_congr {levels levels' : List Level}
    (h : levels'.map Level.ahead = levels.map Level.ahead) (id : Nat) :
    forest.undecidedBehind levels' id = forest.undecidedBehind levels id := by
  induction levels generalizing levels' id with
  | nil =>
    obtain rfl := List.map_eq_nil_iff.mp h
    rfl
  | cons level outer ih =>
    obtain ⟨level', outer', rfl, hlevel, houter⟩ := List.map_eq_cons_iff.mp h
    rw [undecidedBehind, undecidedBehind, hlevel]
    congr 1
    cases forest.parent? id with
    | none => rfl
    | some above => exact ih houter above

/-- Deciding on `more` siblings takes them, and only them, from the nodes still to be decided. -/
theorem Linked.count_undecided_add (linked : forest.Linked) (x known more : Nat)
    (siblings : List Nat) :
    (forest.undecided known siblings).count x =
      ((siblings.drop known).take more).count x +
        (forest.undecided (known + more) siblings).count x := by
  -- A tree is its root and the nodes below it.
  have hwhole : ∀ ids : List Nat, (ids.flatMap fun id => (forest.tree id).preorder).count x =
      ids.count x + (ids.flatMap forest.below).count x := by
    intro ids
    induction ids with
    | nil => rfl
    | cons id rest ih =>
      rw [List.flatMap_cons, List.flatMap_cons, List.count_append, List.count_append, ih,
        linked.preorder_tree, List.count_cons, List.count_cons]
      omega
  -- The siblings split into those decided before, those decided now and the others.
  have htake : siblings.take (known + more) =
      siblings.take known ++ (siblings.drop known).take more := List.take_add
  have hdrop : (siblings.drop known).drop more = siblings.drop (known + more) := List.drop_drop
  have hsplit := List.take_append_drop more (siblings.drop known)
  rw [hdrop] at hsplit
  unfold undecided
  rw [htake]
  conv_lhs => rw [← hsplit]
  simp only [List.flatMap_append, List.count_append, hwhole]
  omega

end Forest

/-- Drawing lines leaves the decisions made ahead as they are. -/
theorem Level.map_ahead_draw (tree : Color) (levels : List Level) (lines : List Line) :
    (Level.draw tree levels lines).2.map Level.ahead = levels.map Level.ahead := by
  induction lines generalizing levels with
  | nil => rfl
  | cons line rest ih =>
    rw [Level.draw, ih, List.map_map]
    rfl

namespace Stream

/-! ### Answers -/

section Answers

variable {κ : Type} [Cursor κ]

/-- There is an answer for each place asked about. -/
theorem map_answers (filter : Filter) (asked : List κ) :
    (answers filter asked).map Prod.fst = asked := by
  induction asked with
  | nil => rfl
  | cons place earlier ih => rw [answers, List.map_cons, ih]

/-- The answers given earlier stay. -/
theorem answers_suffix (filter : Filter) {earlier asked : List κ} (h : earlier <:+ asked) :
    answers filter earlier <:+ answers filter asked := by
  obtain ⟨latest, rfl⟩ := h
  induction latest with
  | nil => exact List.suffix_rfl
  | cons place latest ih => exact ih.trans (List.suffix_cons _ _)

/-- Looking for a node that is shown asks about the first few places, gets their answers in turn, and
    either meets such a node or asks about all of them. -/
theorem askUntilShown_spec (filter : Filter) (places asked : List κ) :
    let result := askUntilShown filter places asked
    result.2 = (places.take result.1.length).reverse ++ asked ∧
      result.1.length ≤ places.length ∧
      (result.1.any (· ≠ .hidden) = false → result.1.length = places.length) ∧
      ∀ decide : κ → Visibility, (∀ answer ∈ answers filter result.2, decide answer.1 = answer.2) →
        result.1 = (places.take result.1.length).map decide := by
  induction places generalizing asked with
  | nil => exact ⟨rfl, le_refl _, fun _ => rfl, fun _ _ => rfl⟩
  | cons place rest ih =>
    obtain ⟨hasked, hlength, hall, hdecide⟩ := ih (place :: asked)
    -- The latest answer is the one on the first place.
    have hlast : ∀ decision, ask filter asked place = decision →
        ∀ decide : κ → Visibility,
          (∀ answer ∈ answers filter (place :: asked), decide answer.1 = answer.2) →
          decide place = decision := by
      intro decision hask decide hagrees
      exact (hagrees (place, ask filter asked place) (List.mem_cons_self ..)).trans hask
    unfold askUntilShown
    cases hask : ask filter asked place with
    | hidden =>
      refine ⟨?_, ?_, ?_, ?_⟩
      · simp [hasked]
      · simpa using hlength
      · intro h
        simpa using hall (by simpa using h)
      · intro decide hagrees
        -- The answer on a hidden place is followed by those on the rest.
        have hplace := hlast .hidden hask decide fun answer hanswer =>
          hagrees answer ((answers_suffix filter (askUntilShown_suffix filter rest _)).subset hanswer)
        simp only [List.length_cons, List.take_succ_cons, List.map_cons, hplace]
        exact congrArg _ (hdecide decide hagrees)
    | shown | collapsed =>
      refine ⟨by simp, by simp, by simp, ?_⟩
      intro decide hagrees
      simp [hlast _ hask decide hagrees]

end Answers

variable {forest : Forest} {decide : Nat → Visibility} {s t : Stream Place} {id : Nat}

/-- Decisions by number that agree with all answers so far. -/
def Agrees (decide : Nat → Visibility) (s : Stream Place) : Prop :=
  ∀ answer ∈ answers s.filter s.asked, decide answer.1.id = answer.2

/-- Decisions that agree with all answers agree with the earlier ones. -/
theorem Agrees.of_continues (agrees : t.Agrees decide) (h : Continues s t) : s.Agrees decide := by
  have hfilter : t.filter = s.filter := filter_of_settings h.settings
  intro answer hanswer
  refine agrees answer ?_
  rw [hfilter]
  exact (answers_suffix s.filter h.asked).subset hanswer

/-- Looking ahead asks about siblings behind the ones decided already, until one is shown or there
    are no more. The level then knows whether the present child is the last one. -/
theorem lookAhead_spec (linked : forest.Linked) (hcursor : s.cursor = ⟨forest, id⟩) {level : Level}
    {outer : List Level} (hlevels : s.levels = level :: outer) :
    ∃ more : List Visibility,
      let reached := ((forest.later id).drop level.ahead.length).take more.length
      s.lookAhead = { s with
        levels := ⟨!(level.ahead ++ more).any (· ≠ .hidden), false, level.ahead ++ more⟩ :: outer
        asked := (reached.map (Place.mk forest)).reverse ++ s.asked } ∧
      ((level.ahead ++ more).any (· ≠ .hidden) = false →
        (forest.later id).length ≤ level.ahead.length + more.length) ∧
      ∀ decide, s.lookAhead.Agrees decide → more = reached.map decide := by
  unfold lookAhead
  simp only [hlevels]
  split
  -- Nothing is asked if a sibling is known to be shown, or there is none.
  · next hskip =>
    refine ⟨[], by simp [Level.showsMore], ?_, fun _ _ => rfl⟩
    intro hnone
    rw [List.append_nil] at hnone
    simp only [Level.showsMore, hnone, Bool.false_or, Bool.and_eq_true, hcursor,
      Place.hasNextSibling_eq, Bool.not_not, List.isEmpty_iff] at hskip
    simp [hskip.1, hskip.2]
  · obtain ⟨hasked, hlength, hall, hdecide⟩ := askUntilShown_spec s.filter
      ((Cursor.following s.cursor).drop level.ahead.length) s.asked
    generalize askUntilShown s.filter ((Cursor.following s.cursor).drop level.ahead.length) s.asked =
      result at *
    obtain ⟨more, asked⟩ := result
    dsimp only at hasked hlength hall hdecide ⊢
    rw [hcursor, Place.following_eq linked, ← List.map_drop, ← List.map_take] at hasked
    rw [hcursor, Place.following_eq linked, ← List.map_drop, List.length_map] at hlength hall
    refine ⟨more, by simp [Level.showsMore, hasked], ?_, ?_⟩
    · intro hnone
      rw [List.any_append, Bool.or_eq_false_iff] at hnone
      have := hall hnone.2
      simp only [List.length_drop] at this
      omega
    · intro decide hagrees
      have hmore := hdecide (fun place => decide place.id) hagrees
      rw [hcursor, Place.following_eq linked, ← List.map_drop, ← List.map_take, List.map_map] at hmore
      exact hmore

/-! ### What is left to ask -/

/-- The nodes that a walk may still ask about. -/
def toDecide (forest : Forest) (s : Stream Place) : List Nat :=
  match s.task, s.levels with
  | .visit, [] => (forest.tree s.cursor.id).preorder
  | .visit, level :: outer =>
    forest.undecided level.ahead.length (s.cursor.id :: forest.later s.cursor.id) ++
      (forest.parent? s.cursor.id).elim [] (forest.undecidedBehind outer)
  | .onward, levels => forest.undecidedBehind levels s.cursor.id
  | .stop, _ => []

/-- How often a walk asks about a node, by now and in the future. -/
def questions (s : Stream Place) (rest : List Nat) (x : Nat) : Nat :=
  (s.asked.map Place.id).count x + rest.count x

/-- A decision takes the node from those to be decided, unless it has been taken before. -/
theorem questions_decide (linked : forest.Linked) (hcursor : s.cursor = ⟨forest, id⟩)
    (htask : s.task = .visit) (x : Nat) :
    questions s.decide.2
        (forest.below id ++ forest.undecidedBehind s.decide.2.levels id) x =
      questions s (s.toDecide forest) x := by
  have hid : s.cursor.id = id := by rw [hcursor]
  unfold decide toDecide questions
  rw [htask, hid]
  split
  -- A decision made ahead leaves the node itself out of those to be decided.
  · next isLast begun decision ahead outer hlevels =>
    simp only [hlevels, Forest.undecidedBehind, Forest.undecided, List.length_cons,
      List.take_succ_cons, List.drop_succ_cons, List.flatMap_cons, List.append_assoc]
  · next hnone =>
    cases hlevels : s.levels with
    | nil =>
      simp only [Forest.undecidedBehind, hid, linked.preorder_tree, List.map_cons,
        List.count_cons, List.append_nil]
      omega
    | cons level outer =>
      obtain ⟨isLast, begun, _ | ⟨decision, ahead⟩⟩ := level
      · simp only [Forest.undecidedBehind, Forest.undecided, hid, linked.preorder_tree,
          List.length_nil, List.take_zero, List.drop_zero, List.flatMap_nil, List.nil_append,
          List.flatMap_cons, List.map_cons, List.cons_append, List.count_cons, List.append_assoc]
        omega
      · exact absurd hlevels (hnone _ _ _ _ _)

/-- Looking ahead takes the siblings it asks about from those to be decided. -/
theorem questions_lookAhead (linked : forest.Linked) (hcursor : s.cursor = ⟨forest, id⟩)
    (inside : List Nat) (x : Nat) :
    questions s.lookAhead (inside ++ forest.undecidedBehind s.lookAhead.levels id) x =
      questions s (inside ++ forest.undecidedBehind s.levels id) x := by
  cases hlevels : s.levels with
  | nil =>
    have hsame : s.lookAhead = s := by
      unfold lookAhead
      rw [hlevels]
    rw [hsame, hlevels]
  | cons level outer =>
    obtain ⟨more, hlook, -, -⟩ := lookAhead_spec linked hcursor hlevels
    have hcount := linked.count_undecided_add x level.ahead.length more.length (forest.later id)
    rw [hlook]
    unfold questions
    simp only [Forest.undecidedBehind, List.map_append, List.map_reverse, List.map_map,
      List.count_append, List.count_reverse, List.length_append]
    have hids : ∀ ids : List Nat, ids.map (Place.id ∘ Place.mk forest) = ids := List.map_id
    rw [hcount, hids]
    omega

/-- A node that is done with leaves what is behind it. -/
theorem questions_done (hcursor : t.cursor = ⟨forest, id⟩) (inside : List Nat) (x : Nat) :
    questions { t with task := .onward } (toDecide forest { t with task := .onward }) x ≤
      questions t (inside ++ forest.undecidedBehind t.levels id) x := by
  have hid : t.cursor.id = id := by rw [hcursor]
  show (t.asked.map Place.id).count x + (forest.undecidedBehind t.levels t.cursor.id).count x ≤ _
  rw [hid, questions, List.count_append]
  omega

/-- A walk that is given up asks about nothing more. -/
theorem questions_abandon (rest : List Nat) (x : Nat) :
    questions t.abandon (t.abandon.toDecide forest) x ≤ questions t rest x := by
  show (t.asked.map Place.id).count x + 0 ≤ _
  unfold questions
  omega

/-- Drawing lines asks about nothing, and leaves as much to be decided. -/
theorem questions_draw (lines : List Line) (inside : List Nat) (x : Nat) :
    questions (t.draw lines) (inside ++ forest.undecidedBehind (t.draw lines).levels id) x =
      questions t (inside ++ forest.undecidedBehind t.levels id) x := by
  have hlevels : forest.undecidedBehind (t.draw lines).levels id = forest.undecidedBehind t.levels id :=
    Forest.undecidedBehind_congr (Level.map_ahead_draw t.theme.tree t.levels lines) id
  rw [hlevels]
  rfl

/-- A node that is entered leaves its children, and what is behind it. -/
theorem questions_enter (linked : forest.Linked) {child : Nat} {rest : List Nat}
    (hchildren : forest.childList id = child :: rest) (x : Nat) :
    let entered := { t with cursor := ⟨forest, child⟩, levels := {} :: t.levels, task := .visit }
    questions entered (toDecide forest entered) x =
      questions t (forest.below id ++ forest.undecidedBehind t.levels id) x := by
  obtain ⟨hparent, hlater⟩ := linked.later_of_childList hchildren
  show (t.asked.map Place.id).count x +
    (forest.undecided 0 (child :: forest.later child) ++
      (forest.parent? child).elim [] (forest.undecidedBehind t.levels)).count x = _
  rw [hlater, hparent, ← hchildren]
  rfl

/-- Taking a node leaves its children to be decided, if it goes there, and what is behind it. -/
theorem questions_visit (linked : forest.Linked) (hforest : s.cursor.forest = forest)
    (htask : s.task = .visit) (x : Nat) :
    let after := (checked s.visit).1
    questions after (after.toDecide forest) x ≤ questions s (s.toDecide forest) x := by
  obtain ⟨id, hcursor⟩ := Place.exists_eq_mk hforest
  have hdecide := questions_decide linked hcursor htask x
  have hspot := sameSpot_decide s
  have hlook : ∀ decision t, s.decide = (decision, t) →
      t.lookAhead.cursor = ⟨forest, id⟩ ∧
        questions t.lookAhead (forest.below id ++ forest.undecidedBehind t.lookAhead.levels id) x =
          questions s (s.toDecide forest) x := by
    intro decision t hd
    rw [hd] at hdecide hspot
    refine ⟨(sameSpot_lookAhead t).cursor.trans (hspot.cursor.trans hcursor), ?_⟩
    rw [questions_lookAhead linked (hspot.cursor.trans hcursor), hdecide]
  have hdrawn : ∀ decision t lines, s.decide = (decision, t) →
      let done := { t.lookAhead.draw lines with task := .onward }
      questions done (toDecide forest done) x ≤ questions s (s.toDecide forest) x := by
    intro decision t lines hd
    obtain ⟨hsame, hquestions⟩ := hlook decision t hd
    rw [← hquestions, ← questions_draw lines]
    exact questions_done (t := t.lookAhead.draw lines) hsame _ x
  have hvisited := visited s
  generalize s.visit = result at hvisited ⊢
  cases hvisited with
  | @hidden t hd =>
    rw [hd] at hdecide hspot
    rw [← hdecide]
    exact questions_done (hspot.cursor.trans hcursor) _ x
  | collapsed hd | read hd _ _ => exact hdrawn _ _ _ hd
  | entered hd hchild =>
    obtain ⟨-, hquestions⟩ := hlook _ _ hd
    rw [hcursor] at hchild
    obtain ⟨child, rest, rfl, hchildren, -, -⟩ := Place.firstChild?_eq_some linked hchild
    rw [← hquestions, ← questions_draw]
    exact (questions_enter linked hchildren x).le
  | unreadable hd _ _ =>
    rw [← (hlook _ _ hd).2]
    exact questions_abandon _ x

/-- Going on leaves what is behind the node. -/
theorem questions_onward (linked : forest.Linked) (hforest : s.cursor.forest = forest)
    (htask : s.task = .onward) (x : Nat) :
    let after := (checked s.onward).1
    questions after (after.toDecide forest) x ≤ questions s (s.toDecide forest) x := by
  obtain ⟨id, hcursor⟩ := Place.exists_eq_mk hforest
  have hdecide : s.toDecide forest = forest.undecidedBehind s.levels id := by
    unfold toDecide
    rw [htask, hcursor]
  have hleft := left s
  generalize s.onward = result at hleft ⊢
  rw [hdecide]
  cases hleft with
  | ended hlevels =>
    show (s.asked.map Place.id).count x + 0 ≤ _
    unfold questions
    omega
  | @toSibling level outer next hlevels hbeside =>
    rw [hcursor] at hbeside
    obtain ⟨sibling, rest, rfl, hlater, hparent, hrest⟩ := Place.nextSibling?_eq_some linked hbeside
    unfold toDecide questions
    simp only [checked, hlevels, Forest.undecidedBehind, hparent, hrest, hlater, le_refl]
  | @toParent level outer parent hlevels hbeside habove =>
    rw [hcursor] at habove
    obtain ⟨above, hparent, rfl⟩ := Place.parent?_eq_some.mp habove
    unfold toDecide questions
    -- The decisions left in the level are dropped with it.
    simp only [hlevels, checked, htask, Forest.undecidedBehind, hparent, Option.elim_some,
      List.count_append]
    omega
  | strayed => exact questions_abandon _ x

/-! ### One decision on each node -/

/-- No node is asked about twice, by now and in the future. -/
structure AsksOnce (forest : Forest) (root : Nat) (s : Stream Place) : Prop where
  below : Below forest root s
  once : ∀ x, questions s (s.toDecide forest) x ≤ 1

/-- At the start each node of the tree is still to be decided, and stands there once. -/
theorem asksOnce_start (linked : forest.Linked) (root : Nat) (source : String) (theme : Theme)
    (filter : Filter) : AsksOnce forest root (start ⟨forest, root⟩ source theme filter) := by
  refine ⟨below_start .., fun x => ?_⟩
  show 0 + (forest.tree root).preorder.count x ≤ 1
  rw [Nat.zero_add]
  exact List.nodup_iff_count_le_one.mp (linked.nodup_preorder_tree root) x

/-- **A node that was asked about is not asked about again.** -/
theorem asksOnce_kept (linked : forest.Linked) (root : Nat) : Kept (AsksOnce forest root) where
  pending s rest h := ⟨(below_kept linked root).pending s rest h.below, h.once⟩
  advance s h := by
    -- No move raises the number of questions about a node.
    refine ⟨(below_kept linked root).advance s h.below, fun x => le_trans ?_ (h.once x)⟩
    cases htask : s.task with
    | visit =>
      rw [advance_visit htask]
      exact questions_visit (s := { s with moves := s.moves - 1 }) linked h.below.inForest htask x
    | onward =>
      rw [advance_onward htask]
      exact questions_onward (s := { s with moves := s.moves - 1 }) linked h.below.inForest htask x
    | stop =>
      rw [advance_stop htask]
      exact le_refl _

/-- **No node has been asked about twice.** -/
theorem AsksOnce.nodup_asked {root : Nat} (h : AsksOnce forest root s) :
    (s.asked.map Place.id).Nodup :=
  List.nodup_iff_count_le_one.mpr fun x => (Nat.le_add_right _ _).trans (h.once x)

/-- All answers that a walk gets are decisions of this function. -/
def Follows (decide : Nat → Visibility) (s : Stream Place) : Prop :=
  ∀ n, (s.after n).Agrees decide

/-- The moment after so many calls more is that after all of them. -/
theorem after_add (s : Stream Place) (n m : Nat) : s.after (n + m) = (s.after n).after m := by
  induction n generalizing s with
  | zero => rw [Nat.zero_add, after]
  | succ n ih => rw [Nat.succ_add, after, ih, after]

/-- The answers up to some call are among those up to a later one. -/
theorem answers_after_suffix (s : Stream Place) {n m : Nat} (h : n ≤ m) :
    answers s.filter (s.after n).asked <:+ answers s.filter (s.after m).asked := by
  obtain ⟨k, rfl⟩ := Nat.exists_eq_add_of_le h
  rw [after_add]
  exact answers_suffix s.filter (after_keeps (continues_kept _) k (Continues.refl _)).asked

/-- All answers on one node are the same. -/
theorem answer_unique {root n m : Nat} (linked : forest.Linked) (once : AsksOnce forest root s)
    {a b : Place × Visibility} (ha : a ∈ answers s.filter (s.after n).asked)
    (hb : b ∈ answers s.filter (s.after m).asked) (hid : a.1.id = b.1.id) : a = b := by
  -- Both are among the answers at the later of the two moments.
  have hlater := after_keeps (asksOnce_kept linked root) (max n m) once
  have hnodup : ((answers s.filter (s.after (max n m)).asked).map fun answer => answer.1.id).Nodup := by
    have := hlater.nodup_asked
    rwa [← map_answers s.filter (s.after (max n m)).asked, List.map_map] at this
  exact List.inj_on_of_nodup_map hnodup ((answers_after_suffix s (le_max_left n m)).subset ha)
    ((answers_after_suffix s (le_max_right n m)).subset hb) hid

/-- **There is one decision on each node that all answers of a walk agree with.** -/
theorem exists_follows (linked : forest.Linked) (root : Nat) (source : String) (theme : Theme)
    (filter : Filter) :
    ∃ decide, (start (⟨forest, root⟩ : Place) source theme filter).Follows decide := by
  have once := asksOnce_start linked root source theme filter
  generalize start (⟨forest, root⟩ : Place) source theme filter = s at once ⊢
  have hchoice : ∀ id, ∃ decision, ∀ n, ∀ answer ∈ answers s.filter (s.after n).asked,
      answer.1.id = id → decision = answer.2 := by
    intro id
    by_cases h : ∃ n, ∃ answer ∈ answers s.filter (s.after n).asked, answer.1.id = id
    · obtain ⟨n, answer, hanswer, rfl⟩ := h
      exact ⟨answer.2, fun m other hother hid =>
        congrArg Prod.snd (answer_unique linked once hanswer hother hid.symm)⟩
    · -- A node that is never asked about may get any decision.
      exact ⟨.shown, fun n answer hanswer hid => absurd ⟨n, answer, hanswer, hid⟩ h⟩
  choose decide hdecide using hchoice
  refine ⟨decide, fun n answer hanswer => ?_⟩
  rw [filter_of_settings (after_keeps (continues_kept s) n (Continues.refl s)).settings] at hanswer
  exact hdecide _ n answer hanswer rfl

end Stream

end BoxTree
