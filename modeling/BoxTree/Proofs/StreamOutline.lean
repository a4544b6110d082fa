import BoxTree.Proofs.StreamLength
import BoxTree.Proofs.StreamReport

namespace BoxTree

/-!
# A stream yields the outline

A walk that follows decisions yields, one call after the other, the lines that recursion on the tree
gives for the same decisions, and the error that ends them.

* `Stream.Answered` — a call answers with the first entry of the remaining report and leaves the others.
* `Stream.answered_search` — every call that may move often enough does.
* `Stream.Yields` — the entries that the calls of `next` answer with; `Stream.Yields.ended_after` — behind them the
  walk has ended.
* `stream_yields_outline` — all calls of a walk.
-/

open Report

namespace Stream

variable {forest : Forest} {decide : Nat → Visibility} {s t : Stream Place}

/-- A line that is pending comes out first. -/
theorem entries_remaining_cons {line : Line} {rest : List Line} (hpending : s.pending = line :: rest) :
    entries (remaining forest decide s) =
      .ok line :: entries (remaining forest decide { s with pending := rest }) := by
  rw [remaining, hpending]
  rfl

/-- A walk that has stopped yields what is pending. -/
theorem remaining_stop (htask : s.task = .stop) : remaining forest decide s = (s.pending, none) := by
  rw [remaining, htask, followedBy_nil]

/-- The answers of a call, and of those after it, are the entries of the remaining report. -/
structure Answered (forest : Forest) (decide : Nat → Visibility) (s : Stream Place)
    (result : Option (Except Error Line) × Stream Place) : Prop where
  answer : result.1 = (entries (remaining forest decide s)).head?
  later : entries (remaining forest decide result.2) = (entries (remaining forest decide s)).tail
  ready : Ready forest decide result.2

theorem answered_pending {line : Line} {rest : List Line} (ready : Ready forest decide s)
    (hpending : s.pending = line :: rest) :
    Answered forest decide s (some (.ok line), { s with pending := rest }) := by
  have hentries : entries (remaining forest decide s) = _ := entries_remaining_cons hpending
  exact ⟨by rw [hentries]; rfl, by rw [hentries]; rfl, ready.inForest, ready.known⟩

theorem answered_stop (ready : Ready forest decide s) (hpending : s.pending = [])
    (htask : s.task = .stop) : Answered forest decide s (none, s) := by
  have hnil : entries (remaining forest decide s) = [] := by
    rw [remaining_stop htask, hpending]
    rfl
  exact ⟨by rw [hnil]; rfl, by rw [hnil]; rfl, ready⟩

/-- A move that leaves the remaining report as it is does not change the answer. -/
theorem Answered.of_faithful {result : Option (Except Error Line) × Stream Place}
    (answered : Answered forest decide t result) (faithful : Faithful forest decide s (t, none)) :
    Answered forest decide s result := by
  have hsame : remaining forest decide s = remaining forest decide t := faithful.report
  exact ⟨by rw [hsame]; exact answered.answer, by rw [hsame]; exact answered.later, answered.ready⟩

/-- A move that fails is where the report ends. -/
theorem answered_failed {error : Error} (faithful : Faithful forest decide s (t, some error))
    (hpending : s.pending = []) : Answered forest decide s (some (.error error), t) := by
  have hreport : remaining forest decide s = ([], some error) := by
    rw [← hpending]
    exact faithful.report
  obtain ⟨hstop, hsame⟩ := faithful.stopped (by simp)
  have hafter : remaining forest decide t = ([], none) := by
    rw [remaining_stop hstop, hsame, hpending]
  exact ⟨by rw [hreport]; rfl, by rw [hreport, hafter]; rfl, faithful.ready⟩

/-- A search that may move often enough answers with the first of the remaining entries. -/
theorem answered_search (linked : forest.Linked) (fuel : Nat) (ready : Ready forest decide s)
    (hfuel : movesLeft forest s ≤ fuel) (agrees : (search fuel s).2.Agrees decide) :
    Answered forest decide s (search fuel s) := by
  induction fuel generalizing s with
  | zero =>
    cases hpending : s.pending with
    | nil =>
      -- Without moves left the walk has stopped.
      rw [search_zero hpending]
      exact answered_stop ready hpending (movesLeft_eq_zero.mp (Nat.le_zero.mp hfuel))
    | cons line rest =>
      rw [search_pending 0 hpending]
      exact answered_pending ready hpending
  | succ fuel ih =>
    cases hpending : s.pending with
    | cons line rest =>
      rw [search_pending _ hpending]
      exact answered_pending ready hpending
    | nil =>
      by_cases htask : s.task = .stop
      · rw [search_stop _ hpending htask]
        exact answered_stop ready hpending htask
      have hleft := movesLeft_advance linked ready.inForest htask
      rcases hmove : s.advance with ⟨t, _ | error⟩ <;> rw [hmove] at hleft
      · rw [search_moved fuel hpending htask hmove] at agrees ⊢
        -- The answers so far are among those at the end of the search.
        have hagrees : s.advance.1.Agrees decide := by
          rw [hmove]
          exact agrees.of_continues (search_keeps (continues_kept t) fuel (Continues.refl t))
        have faithful := faithful_advance linked ready hagrees
        rw [hmove] at faithful
        exact (ih faithful.ready (by omega) agrees).of_faithful faithful
      · rw [search_failed fuel hpending htask hmove] at agrees ⊢
        have faithful := faithful_advance linked ready (by rw [hmove]; exact agrees)
        rw [hmove] at faithful
        exact answered_failed faithful hpending

/-- If the first call answers with the first entry, and the others with the entries behind it, all calls
    answer with the entries. -/
theorem pulls_succ_eq {κ : Type} [Cursor κ] {s : Stream κ} {entries : List (Except Error Line)} {n : Nat}
    (hfirst : s.next.1 = entries.head?)
    (hrest : s.next.2.pulls n = (List.range n).map fun i => entries.tail[i]?) :
    s.pulls (n + 1) = (List.range (n + 1)).map fun i => entries[i]? := by
  rw [pulls, hfirst, hrest, List.range_succ_eq_map, List.map_cons, List.map_map, List.head?_eq_getElem?]
  congr 1
  exact List.map_congr_left fun i _ => List.getElem?_tail

/-- What the calls of a walk answer are the entries of the remaining report, then nothing. -/
theorem pulls_eq (linked : forest.Linked) {root : Nat} (n : Nat) (ready : Ready forest decide s)
    (funded : Funded forest root s) (follows : s.Follows decide) :
    s.pulls n = (List.range n).map fun i => (entries (remaining forest decide s))[i]? := by
  induction n generalizing s with
  | zero => rfl
  | succ n ih =>
    have answered : Answered forest decide s s.next :=
      answered_search linked s.moves ready funded.enough (follows 1)
    have hrest := ih answered.ready (search_keeps (funded_kept linked root) s.moves funded)
      fun k => follows (k + 1)
    -- The first call takes the head of the entries, the others see its tail.
    refine pulls_succ_eq answered.answer ?_
    rw [← answered.later]
    exact hrest

/-- The remaining report of a walk that has not begun is the outline of its tree. -/
theorem remaining_start (root : Nat) (source : String) (theme : Theme) (filter : Filter) :
    remaining forest decide (start ⟨forest, root⟩ source theme filter) =
      (forest.tree root).outline theme source decide :=
  followedBy_nil _

/-! ### All entries -/

section Yields

variable {κ : Type} [Cursor κ] {s : Stream κ} {entries : List (Except Error Line)}

/-- The calls of `next` answer with these entries, and then with nothing. -/
def Yields (s : Stream κ) (entries : List (Except Error Line)) : Prop :=
  ∀ n, s.pulls n = (List.range n).map fun i => entries[i]?

/-- The first call answers with the first entry and leaves the others. -/
theorem Yields.next (yields : s.Yields entries) :
    s.next.1 = entries.head? ∧ s.next.2.Yields entries.tail := by
  have hsplit : ∀ n, s.next.1 = entries.head? ∧
      s.next.2.pulls n = (List.range n).map fun i => entries.tail[i]? := by
    intro n
    have hpulls := yields (n + 1)
    rw [pulls, List.range_succ_eq_map, List.map_cons, List.map_map] at hpulls
    obtain ⟨hfirst, hrest⟩ := List.cons_eq_cons.mp hpulls
    refine ⟨hfirst.trans List.head?_eq_getElem?.symm, hrest.trans (List.map_congr_left fun i _ => ?_)⟩
    exact List.getElem?_tail.symm
  exact ⟨(hsplit 0).1, fun n => (hsplit n).2⟩

end Yields

/-- **Behind its entries a walk has ended**, whatever is asked of it. -/
theorem Yields.ended_after (linked : forest.Linked) {root : Nat} (funded : Funded forest root s)
    {entries : List (Except Error Line)} (yields : s.Yields entries) {n : Nat} (hn : entries.length < n) :
    (s.after n).Ended := by
  induction n generalizing s entries with
  | zero => exact absurd hn (Nat.not_lt_zero _)
  | succ n ih =>
    obtain ⟨hfirst, hrest⟩ := yields.next
    show (after n s.next.2).Ended
    cases entries with
    | nil =>
      -- The call that answers with nothing finds the end, and those after it leave it there.
      have hended := funded.ended linked hfirst
      rw [hended.after]
      exact hended
    | cons entry later =>
      exact ih (search_keeps (funded_kept linked root) s.moves funded) hrest (Nat.lt_of_succ_lt_succ hn)

end Stream

example :
    ((Stream.start (⟨.sapling, 0⟩ : Place) "xy" .terminal
      (NameRules.filter { hidden := ["Right"] })).pulls 4).map
        (fun answer => answer.map fun line => line.toOption.map Line.plain) =
      [some (some "Pair:"), some (some "└╴Left:"), some (some "  └╴Leaf: x"), none] := by
  decide +kernel

end BoxTree
