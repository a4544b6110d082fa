import BoxTree.Proofs.StreamOutline

namespace BoxTree

/-!
# Lines that are handed over

Whoever has the lines of a walk handed over gets the answers of `next`, one after the other, up to the
first error of the walk and the first line that is refused.

* `Stream.Follows.yields`, `Stream.exists_yields` — those of a walk of a tree are the entries of an outline.
* `Stream.feedEntries` — handing entries over.
* `Stream.pullsFor` — how many calls of `next` that takes.
* `Stream.consume_eq` — consuming a walk hands over the entries that it yields.
-/

namespace Stream

variable {κ : Type} [Cursor κ] {s t : Stream κ} {entries : List (Except Error Line)}

/-! ### The entries of the moments of a walk -/

/-- A pending line is the first entry. -/
theorem Yields.pending {line : Line} {rest : List Line} (yields : s.Yields entries)
    (hpending : s.pending = line :: rest) :
    ∃ later, entries = .ok line :: later ∧ Yields { s with pending := rest } later := by
  have hnext : s.next = (some (.ok line), { s with pending := rest }) := search_pending _ hpending
  obtain ⟨hfirst, hrest⟩ := yields.next
  rw [hnext] at hfirst hrest
  exact ⟨entries.tail, (List.cons_head?_tail hfirst.symm).symm, hrest⟩

/-- Moments at which the next call does the same yield the same. -/
theorem Yields.congr (yields : s.Yields entries) (h : s.next = t.next) : t.Yields entries := by
  intro n
  cases n with
  | zero => rfl
  | succ n => rw [← yields (n + 1), pulls, pulls, h]

/-- A walk that answers with nothing, and stays as it is, has no entries left. -/
theorem Yields.ended (yields : s.Yields entries) (hnext : s.next = (none, s)) : entries = [] := by
  have hfirst := yields.next.1
  rw [hnext] at hfirst
  exact List.head?_eq_none_iff.mp hfirst.symm

/-- A walk without moves left yields what is pending. -/
theorem next_of_moves_eq_zero (hpending : s.pending = []) (hmoves : s.moves = 0) :
    s.next = (none, s) := by
  rw [Stream.next, hmoves, search_zero hpending]

/-- A move that succeeds leaves the answers as they are. -/
theorem next_of_moved {fuel : Nat} (hpending : s.pending = []) (htask : s.task ≠ .stop)
    (hmoves : s.moves = fuel + 1) (hmove : s.advance = (t, none)) : s.next = t.next := by
  have hleft : t.moves = fuel := by
    have hcount := moves_advance s
    rw [hmove, hmoves] at hcount
    exact hcount
  rw [Stream.next, hmoves, search_moved fuel hpending htask hmove, Stream.next, hleft]

/-- A move that fails is the first entry. -/
theorem next_of_failed {fuel : Nat} {error : Error} (hpending : s.pending = [])
    (htask : s.task ≠ .stop) (hmoves : s.moves = fuel + 1) (hmove : s.advance = (t, some error)) :
    s.next = (some (.error error), t) := by
  rw [Stream.next, hmoves]
  exact search_failed fuel hpending htask hmove

/-- An error is the first entry of a walk that answers with it. -/
theorem Yields.failed {error : Error} (yields : s.Yields entries)
    (hnext : s.next = (some (.error error), t)) : ∃ later, entries = .error error :: later := by
  have hfirst := yields.next.1
  rw [hnext] at hfirst
  exact ⟨entries.tail, (List.cons_head?_tail hfirst.symm).symm⟩

/-- A walk of a tree that follows decisions yields the entries of the outline. -/
theorem Follows.yields {forest : Forest} (linked : forest.Linked) {root : Nat} (hroot : root < forest.size)
    {source : String} {theme : Theme} {filter : Filter} {decide : Nat → Visibility}
    (follows : (start (⟨forest, root⟩ : Place) source theme filter).Follows decide) :
    (start (⟨forest, root⟩ : Place) source theme filter).Yields
      (Report.entries ((forest.tree root).outline theme source decide)) := by
  have ready : Ready forest decide (start ⟨forest, root⟩ source theme filter) := ⟨rfl, trivial⟩
  intro n
  rw [pulls_eq linked n ready (funded_start linked hroot source theme filter) follows, remaining_start]

/-- A walk of a tree yields the entries of the outline, for decisions that agree with its answers. -/
theorem exists_yields {forest : Forest} (linked : forest.Linked) {root : Nat} (hroot : root < forest.size)
    (source : String) (theme : Theme) (filter : Filter) :
    ∃ decide, (start (⟨forest, root⟩ : Place) source theme filter).Yields
      (Report.entries ((forest.tree root).outline theme source decide)) := by
  obtain ⟨decide, follows⟩ := exists_follows linked root source theme filter
  exact ⟨decide, follows.yields linked hroot⟩

/-! ### Handing entries over -/

variable {α : Type} {take : α → Line → α × Option Error} {acc acc' : α}

/-- Hands entries over until one is an error or a line is refused. -/
def feedEntries (take : α → Line → α × Option Error) :
    α → List (Except Error Line) → α × Option Error
  | acc, [] => (acc, none)
  | acc, .error error :: _ => (acc, some error)
  | acc, .ok line :: rest =>
    match take acc line with
    | (acc, none) => feedEntries take acc rest
    | (acc, some error) => (acc, some error)

/-- How many calls of `next` it takes to hand entries over: one for each entry that is looked at, and
    one more to learn that there are no others. -/
def pullsFor (take : α → Line → α × Option Error) : α → List (Except Error Line) → Nat
  | _, [] | _, .error _ :: _ => 1
  | acc, .ok line :: rest =>
    match take acc line with
    | (acc, none) => pullsFor take acc rest + 1
    | (_, some _) => 1

/-- A line that is refused ends it. -/
theorem feedEntries_refused {line : Line} {error : Error} (h : (take acc line).2 = some error)
    (rest : List (Except Error Line)) :
    feedEntries take acc (.ok line :: rest) = ((take acc line).1, some error) ∧
      pullsFor take acc (.ok line :: rest) = 1 := by
  rw [feedEntries, pullsFor]
  rcases htake : take acc line with ⟨after, refusal⟩
  rw [htake] at h
  obtain rfl : refusal = some error := h
  exact ⟨rfl, rfl⟩

/-- A line that is taken leaves those after it to be handed over. -/
theorem feedEntries_taken {line : Line} (h : (take acc line).2 = none)
    (rest : List (Except Error Line)) :
    feedEntries take acc (.ok line :: rest) = feedEntries take (take acc line).1 rest ∧
      pullsFor take acc (.ok line :: rest) = pullsFor take (take acc line).1 rest + 1 := by
  rw [feedEntries, pullsFor]
  rcases htake : take acc line with ⟨after, refusal⟩
  rw [htake] at h
  obtain rfl : refusal = none := h
  exact ⟨rfl, rfl⟩

/-- Handing entries over takes a call at least, if only to learn that there are none. -/
theorem one_le_pullsFor (take : α → Line → α × Option Error) (acc : α)
    (entries : List (Except Error Line)) : 1 ≤ pullsFor take acc entries := by
  unfold pullsFor
  repeat' split
  all_goals omega

/-- Handing the pending lines over hands over the first entries, with a call for each. -/
theorem Yields.feed {rest : List Line} {refused : Option Error} (yields : s.Yields entries)
    (hfeed : feed take acc s.pending = (acc', refused, rest)) :
    (∀ error, refused = some error → feedEntries take acc entries = (acc', some error) ∧
        s.after (pullsFor take acc entries) = { s with pending := rest }) ∧
      (refused = none → rest = [] ∧ ∃ later, Yields { s with pending := [] } later ∧
        feedEntries take acc entries = feedEntries take acc' later ∧
        s.after (pullsFor take acc entries) =
          after (pullsFor take acc' later) { s with pending := [] }) := by
  generalize hpending : s.pending = pending at hfeed
  induction pending generalizing s acc entries with
  | nil =>
    simp only [Stream.feed, Prod.mk.injEq] at hfeed
    obtain ⟨rfl, rfl, rfl⟩ := hfeed
    have hsame : ({ s with pending := [] } : Stream κ) = s := by rw [← hpending]
    rw [hsame]
    exact ⟨by simp, fun _ => ⟨rfl, entries, yields, rfl, rfl⟩⟩
  | cons line more ih =>
    obtain ⟨later, rfl, hlater⟩ := yields.pending hpending
    have hnext : s.next = (some (.ok line), { s with pending := more }) := search_pending _ hpending
    have hafter : ∀ n, s.after (n + 1) = after n { s with pending := more } := by
      intro n
      rw [after, hnext]
    unfold Stream.feed at hfeed
    rw [feedEntries, pullsFor]
    rcases htake : take acc line with ⟨next, _ | error⟩ <;> rw [htake] at hfeed
    · simp only [hafter]
      exact ih (s := { s with pending := more }) hlater rfl hfeed
    · simp only [Prod.mk.injEq] at hfeed
      obtain ⟨rfl, rfl, rfl⟩ := hfeed
      refine ⟨fun error herror => ?_, fun hnone => by cases hnone⟩
      obtain rfl := Option.some.inj herror
      exact ⟨rfl, hafter 0⟩

/-- **Consuming a walk hands over the entries that it yields**, and calls `next` as often as that
    takes. -/
theorem consume_eq (take : α → Line → α × Option Error) (acc : α) (yields : s.Yields entries) :
    s.consume take acc =
      ((feedEntries take acc entries).1, (feedEntries take acc entries).2,
        s.after (pullsFor take acc entries)) := by
  unfold consume
  generalize hmoves : s.moves = fuel
  induction fuel generalizing s acc entries with
  | zero =>
    rcases hfeed : feed take acc s.pending with ⟨acc', _ | error, rest⟩
    · obtain ⟨rfl, later, hlater, hsame, hafter⟩ := (yields.feed hfeed).2 rfl
      have hnext := next_of_moves_eq_zero (s := { s with pending := [] }) rfl hmoves
      obtain rfl : later = [] := hlater.ended hnext
      rw [consumeUpTo_zero hfeed, hsame, hafter, pullsFor, after, after, hnext]
      rfl
    · obtain ⟨hsame, hafter⟩ := (yields.feed hfeed).1 error rfl
      rw [consumeUpTo_refused 0 hfeed, hsame, hafter]
  | succ fuel ih =>
    rcases hfeed : feed take acc s.pending with ⟨acc', _ | error, rest⟩
    · obtain ⟨rfl, later, hlater, hsame, hafter⟩ := (yields.feed hfeed).2 rfl
      rw [hsame, hafter]
      by_cases htask : s.task = .stop
      · have hnext := Ended.next (s := { s with pending := [] }) ⟨htask, rfl⟩
        obtain rfl : later = [] := hlater.ended hnext
        rw [consumeUpTo_stop _ hfeed htask, pullsFor, after, after, hnext]
        rfl
      -- All pending lines are handed over, so the next entry is that of the next move.
      · rcases hmove : advance { s with pending := [] } with ⟨t, _ | error⟩
        · have hnext : next { s with pending := [] } = t.next :=
            next_of_moved rfl htask hmoves hmove
          have hleft : t.moves = fuel := by
            have hcount := moves_advance { s with pending := [] }
            rw [hmove] at hcount
            exact hcount.trans (by rw [hmoves, Nat.add_sub_cancel])
          obtain ⟨n, hn⟩ := Nat.exists_eq_add_of_le' (one_le_pullsFor take acc' later)
          rw [consumeUpTo_moved fuel hfeed htask hmove, ih acc' (hlater.congr hnext) hleft, hn, after,
            after, hnext]
        · have hnext : next { s with pending := [] } = (some (.error error), t) :=
            next_of_failed rfl htask hmoves hmove
          obtain ⟨last, rfl⟩ := hlater.failed hnext
          rw [consumeUpTo_failed fuel hfeed htask hmove, pullsFor, after, after, hnext]
          rfl
    · obtain ⟨hsame, hafter⟩ := (yields.feed hfeed).1 error rfl
      rw [consumeUpTo_refused _ hfeed, hsame, hafter]

end Stream

end BoxTree
