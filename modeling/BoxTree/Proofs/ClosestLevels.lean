import BoxTree.Proofs.NearestEntry

namespace BoxTree

/-!
# The closest level of a table

A table of levels may come in any order and have a level more than once. Its closest level is found in one
pass that keeps the best entry so far and gives it up for a closer one only, so that of several entries the
first one stays. The place of an entry is kept as a byte, which does for 256 entries.

* `FirstClosest` — an entry that is as close as any other one, and closer than those before it.
* `FirstClosest.unique` — a table has one such entry.
* `keepCloser`, `scanLevels` — the pass, round by round.
* `firstClosest_keepCloser`, `firstClosest_scanLevelsFrom` — what a round keeps, and so all the rounds.
* `level_found_is_first_of_closest` — what is found in a table.
-/

/-- The entry at `place` is as close to `value` as any other one, and closer than those before it. -/
structure FirstClosest (value : Nat) (levels : List UInt8) (place : Nat) (level : UInt8) : Prop where
  entry : levels[place]? = some level
  closest : ∀ other ∈ levels, gap level.toNat value ≤ gap other.toNat value
  first : ∀ earlier < place, ∀ other, levels[earlier]? = some other →
    gap level.toNat value < gap other.toNat value

namespace FirstClosest

variable {value : Nat} {levels : List UInt8} {place : Nat} {level : UInt8}

theorem place_lt (h : FirstClosest value levels place level) : place < levels.length :=
  (List.getElem?_eq_some_iff.mp h.entry).1

/-- Of two such entries neither is before the other one. -/
theorem unique {place' : Nat} {level' : UInt8} (h : FirstClosest value levels place level)
    (h' : FirstClosest value levels place' level') : place = place' ∧ level = level' := by
  obtain rfl : place = place' := by
    obtain hlt | heq | hgt := Nat.lt_trichotomy place place'
    · have hcloser := h'.first place hlt level h.entry
      exact absurd (h.closest level' (List.mem_of_getElem? h'.entry)) (Nat.not_le.mpr hcloser)
    · exact heq
    · have hcloser := h.first place' hgt level' h'.entry
      exact absurd (h'.closest level (List.mem_of_getElem? h.entry)) (Nat.not_le.mpr hcloser)
  exact ⟨rfl, Option.some.inj (h.entry.symm.trans h'.entry)⟩

theorem singleton (value : Nat) (level : UInt8) : FirstClosest value [level] 0 level :=
  ⟨rfl, fun other hother => by rw [List.mem_singleton.mp hother],
    fun earlier hearlier => absurd hearlier (Nat.not_lt_zero _)⟩

/-- One more entry that is closer than the best one is closer than all. -/
theorem replace (h : FirstClosest value levels place level) {next : UInt8}
    (closer : gap next.toNat value < gap level.toNat value) :
    FirstClosest value (levels ++ [next]) levels.length next := by
  have hbeats : ∀ other ∈ levels, gap next.toNat value < gap other.toNat value := fun other hother =>
    closer.trans_le (h.closest other hother)
  refine ⟨List.getElem?_concat_length, ?_, fun earlier hearlier other hother => ?_⟩
  · rw [List.forall_mem_append, List.forall_mem_singleton]
    exact ⟨fun other hother => (hbeats other hother).le, le_refl _⟩
  · rw [List.getElem?_append_left hearlier] at hother
    exact hbeats other (List.mem_of_getElem? hother)

/-- One more entry that is not closer than the best one, perhaps as close, changes nothing. -/
theorem keep (h : FirstClosest value levels place level) {next : UInt8}
    (farther : ¬gap next.toNat value < gap level.toNat value) :
    FirstClosest value (levels ++ [next]) place level := by
  refine ⟨?_, ?_, fun earlier hearlier other hother => ?_⟩
  · rw [List.getElem?_append_left h.place_lt]
    exact h.entry
  · rw [List.forall_mem_append, List.forall_mem_singleton]
    exact ⟨h.closest, Nat.le_of_not_lt farther⟩
  · rw [List.getElem?_append_left (hearlier.trans h.place_lt)] at hother
    exact h.first earlier hearlier other hother

end FirstClosest

/-- What is found in a table with a byte for every place is such an entry. -/
theorem firstClosest_closestLevel (value : Nat) {levels : List UInt8} (entries : levels ≠ [])
    (fits : levels.length ≤ 256) :
    FirstClosest value levels (closestLevel levels value).1.toNat (closestLevel levels value).2 := by
  obtain ⟨hentry, hclosest, hfirst⟩ := closestPlace_spec value entries
  rw [toNat_closestLevel value entries fits]
  exact ⟨hentry, hclosest, hfirst⟩

/-! ### The pass -/

/-- One round: the entry at `place` takes over if it is closer than the best one so far. -/
def keepCloser (value : Nat) (best : UInt8 × UInt8) (place : Nat) (level : UInt8) : UInt8 × UInt8 :=
  if gap level.toNat value < gap best.2.toNat value then (UInt8.ofNat place, level) else best

/-- The rounds from `place` on. -/
def scanLevelsFrom (value : Nat) (best : UInt8 × UInt8) (place : Nat) : List UInt8 → UInt8 × UInt8
  | [] => best
  | level :: rest => scanLevelsFrom value (keepCloser value best place level) (place + 1) rest

/-- The whole pass. Before its first round, the first entry is the best one. -/
def scanLevels (levels : List UInt8) (value : Nat) : UInt8 × UInt8 :=
  scanLevelsFrom value (0, levels.headD 0) 0 levels

/-- A round leaves the first of the closest entries among those seen by then. -/
theorem firstClosest_keepCloser {value : Nat} {seen : List UInt8} {best : UInt8 × UInt8}
    (h : FirstClosest value seen best.1.toNat best.2) (room : seen.length < 256) (level : UInt8) :
    FirstClosest value (seen ++ [level]) (keepCloser value best seen.length level).1.toNat
      (keepCloser value best seen.length level).2 := by
  unfold keepCloser
  split
  · next closer =>
    show FirstClosest value (seen ++ [level]) (UInt8.ofNat seen.length).toNat level
    rw [UInt8.toNat_ofNat_of_lt' room]
    exact h.replace closer
  · next farther => exact h.keep farther

/-- Hence the rounds that are left find it among all entries. -/
theorem firstClosest_scanLevelsFrom {value : Nat} {seen : List UInt8} (best : UInt8 × UInt8)
    (rest : List UInt8) (h : FirstClosest value seen best.1.toNat best.2)
    (fits : (seen ++ rest).length ≤ 256) :
    FirstClosest value (seen ++ rest) (scanLevelsFrom value best seen.length rest).1.toNat
      (scanLevelsFrom value best seen.length rest).2 := by
  induction rest generalizing seen best with
  | nil =>
    rw [List.append_nil]
    exact h
  | cons level rest ih =>
    have hroom : seen.length < 256 := by
      rw [List.length_append, List.length_cons] at fits
      omega
    rw [List.append_cons] at fits ⊢
    have hrest := ih _ (firstClosest_keepCloser h hroom level) fits
    rw [List.length_append, List.length_singleton] at hrest
    exact hrest

/-- Hence the pass finds it. In the first round the first entry is compared with itself, and stays. -/
theorem firstClosest_scanLevels (value : Nat) {levels : List UInt8} (entries : levels ≠ [])
    (fits : levels.length ≤ 256) :
    FirstClosest value levels (scanLevels levels value).1.toNat (scanLevels levels value).2 := by
  obtain ⟨first, rest, rfl⟩ := List.exists_cons_of_ne_nil entries
  have hround : keepCloser value (0, first) 0 first = (0, first) := if_neg (Nat.lt_irrefl _)
  have hscan : scanLevels (first :: rest) value = scanLevelsFrom value (0, first) [first].length rest :=
    congrArg (scanLevelsFrom value · 1 rest) hround
  rw [hscan]
  exact firstClosest_scanLevelsFrom (0, first) rest (FirstClosest.singleton value first) fits

/-! ### What is found -/

/-- **What is found in a table** that is not empty and has a byte for every place, in whatever order its
    levels are and however often one of them occurs: an entry at its place, such that no entry is closer to
    the value and none before it is as close. There is no other such entry, and one pass over the table
    finds it. -/
theorem level_found_is_first_of_closest {levels : List UInt8} (value : UInt16) (entries : levels ≠ [])
    (fits : levels.length ≤ 256) :
    (∀ place level, closestLevel levels value.toNat = (place, level) ↔
        FirstClosest value.toNat levels place.toNat level) ∧
      scanLevels levels value.toNat = closestLevel levels value.toNat := by
  have hfound : FirstClosest value.toNat levels (closestLevel levels value.toNat).1.toNat
      (closestLevel levels value.toNat).2 := firstClosest_closestLevel _ entries fits
  have honly : ∀ {place level}, FirstClosest value.toNat levels place.toNat level →
      closestLevel levels value.toNat = (place, level) := by
    intro place level h
    obtain ⟨hplace, hlevel⟩ := hfound.unique h
    exact Prod.ext (UInt8.toNat_inj.mp hplace) hlevel
  refine ⟨fun place level => ⟨fun h => ?_, honly⟩, ?_⟩
  · rw [h] at hfound
    exact hfound
  · exact (honly (firstClosest_scanLevels _ entries fits)).symm

/-- A table in disorder, in which two levels are as close to 50 and one of them occurs twice. The first
    entry with either of them is found. -/
theorem level_found_in_disorder :
    let levels : List UInt8 := [200, 40, 60, 40, 60]
    levels ≠ [] ∧ levels.length ≤ 256 ∧ closestLevel levels 50 = (1, 40) ∧
      FirstClosest 50 levels 1 40 ∧ scanLevels levels 50 = (1, 40) := by
  intro levels
  have entries : levels ≠ [] := List.cons_ne_nil _ _
  have fits : levels.length ≤ 256 := by decide
  have hfound : closestLevel levels 50 = (1, 40) := by decide
  obtain ⟨hspec, hscan⟩ := level_found_is_first_of_closest 50 entries fits
  exact ⟨entries, fits, hfound, (hspec 1 40).mp hfound, hscan.trans hfound⟩

end BoxTree
