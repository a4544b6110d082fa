import BoxTree.Output.Shown
import BoxTree.Proofs.NearestEntry

namespace BoxTree

/-!
# The colour that fits a terminal

A writer computes the entry that stands in for a colour from the levels of its channels. Comparing the
entries one by one comes to the same.

* `argmin_eq_some_of_first` — what a search finds that keeps the first of several.
* `mem_cubeEntries`, `mem_rampEntries` — the entries that are compared.
* `Rgb.closestGray?_eq`, `Rgb.closest?_eq` — what is found among them.
* `Support.shown_eq` — what a terminal shows of a colour is the colour that fits it.
-/

/-- The least of several is found if it is less than all before it. -/
theorem argmin_eq_some_of_first {α : Type} [DecidableEq α] {f : α → Nat} {before after : List α} {least : α}
    (hbefore : ∀ a ∈ before, f least < f a) (hafter : ∀ a ∈ after, f least ≤ f a) :
    (before ++ least :: after).argmin f = some least := by
  have hnot : ∀ {a}, f a ≤ f least → a ∉ before := fun hle ha => (hbefore _ ha).not_ge hle
  refine List.argmin_eq_some_iff.mpr ⟨by simp, ?_, fun a _ hle => ?_⟩
  · rw [List.forall_mem_append, List.forall_mem_cons]
    exact ⟨fun a ha => (hbefore a ha).le, le_refl _, hafter⟩
  · rw [List.idxOf_append_of_notMem (hnot le_rfl), List.idxOf_append_of_notMem (hnot hle),
      List.idxOf_cons_self]
    exact Nat.le_add_right _ _

/-! ### The entries -/

/-- Entries in order are those between the first and the last. -/
theorem mem_entriesFrom {start entry : UInt8} {n : Nat} (fits : start.toNat + n ≤ 256) :
    entry ∈ entriesFrom start n ↔ start.toNat ≤ entry.toNat ∧ entry.toNat < start.toNat + n := by
  have hplace : ∀ {place}, place < n → (start + UInt8.ofNat place).toNat = start.toNat + place := by
    intro place hlt
    have hsize : place < UInt8.size := by
      rw [show UInt8.size = 256 from rfl]
      omega
    rw [UInt8.toNat_add, UInt8.toNat_ofNat_of_lt' hsize]
    omega
  rw [entriesFrom, List.mem_map]
  constructor
  · rintro ⟨place, hmem, rfl⟩
    have hlt := List.mem_range.mp hmem
    rw [hplace hlt]
    omega
  · rintro ⟨hstart, hstop⟩
    refine ⟨entry.toNat - start.toNat, List.mem_range.mpr (by omega), UInt8.toNat_inj.mp ?_⟩
    rw [hplace (by omega)]
    omega

/-- The gray ramp goes up to the end of the palette. -/
theorem mem_rampEntries {entry : UInt8} : entry ∈ rampEntries ↔ rampStart ≤ entry := by
  have hlt := entry.toNat_lt
  rw [rampEntries, mem_entriesFrom (by decide), UInt8.le_iff_toNat_le, show rampStart.toNat = 232 from rfl]
  omega

/-- The cube goes up to the gray ramp. -/
theorem mem_cubeEntries {entry : UInt8} : entry ∈ cubeEntries ↔ cubeStart ≤ entry ∧ entry < rampStart := by
  rw [cubeEntries, mem_entriesFrom (by decide), UInt8.le_iff_toNat_le, UInt8.lt_iff_toNat_lt]
  rfl

/-- The grays come in the order of their levels. -/
theorem pairwise_rampEntries : rampEntries.Pairwise (· < ·) := by
  decide

/-! ### What is found among them -/

namespace Rgb

variable (c : Rgb)

/-- The level of a gray. -/
theorem red_entryRgb {gray : UInt8} (hstart : rampStart ≤ gray) :
    gray.toNat < 232 + 24 ∧ (entryRgb gray).red.toNat = rampLevel (gray.toNat - 232) := by
  obtain ⟨place, hplace, hentry, -, hrgb⟩ := exists_ramp_place hstart
  rw [hrgb, hentry, Nat.add_sub_cancel_left]
  exact ⟨by omega, rfl⟩

/-- **The gray of the mean is found by comparing the grays.** -/
theorem closestGray?_eq : c.closestGray? = some c.nearestGray := by
  obtain ⟨hplace, hclosest, hfirst⟩ := c.rampPlace_spec
  have hchosen : (entryRgb c.nearestGray).red.toNat = rampLevel c.rampPlace := by
    rw [(red_entryRgb c.rampStart_le_nearestGray).2, c.toNat_nearestGray, Nat.add_sub_cancel_left]
  have hsorted := pairwise_rampEntries
  obtain ⟨before, after, hsplit⟩ := List.append_of_mem (mem_rampEntries.mpr c.rampStart_le_nearestGray)
  have hramp : ∀ gray ∈ before ++ c.nearestGray :: after, rampStart ≤ gray := by
    intro gray hgray
    rw [← hsplit] at hgray
    exact mem_rampEntries.mp hgray
  rw [hsplit] at hsorted
  rw [closestGray?, hsplit]
  refine argmin_eq_some_of_first (fun gray hgray => ?_) fun gray hgray => ?_
  -- A gray before it is darker, and so farther from the mean.
  · have hstart := hramp gray (List.mem_append_left _ hgray)
    have hdarker : gray < c.nearestGray :=
      (List.pairwise_append.mp hsorted).2.2 gray hgray _ List.mem_cons_self
    have hlow : 232 ≤ gray.toNat := UInt8.le_iff_toNat_le.mp hstart
    rw [UInt8.lt_iff_toNat_lt, c.toNat_nearestGray] at hdarker
    rw [hchosen, (red_entryRgb hstart).2]
    exact hfirst _ (by omega)
  · obtain ⟨hlt, hlevel⟩ :=
      red_entryRgb (hramp gray (List.mem_append_right _ (List.mem_cons_of_mem _ hgray)))
    rw [hchosen, hlevel]
    exact hclosest _ (by omega)

/-- **The entry that stands in for a colour is found by comparing the entries.** -/
theorem closest?_eq : c.closest? = some c.nearestEntry := by
  have hcube : ∀ {entry}, entry ∈ cubeEntries → c.distance c.cubeRgb ≤ c.distance (entryRgb entry) ∧
      (c.distance (entryRgb entry) ≤ c.distance c.cubeRgb → entry = c.nearestCube) := by
    intro entry hentry
    obtain ⟨hstart, hstop⟩ := mem_cubeEntries.mp hentry
    exact c.distance_cube_le hstart hstop
  rw [closest?, closestGray?_eq, Option.toList_some, nearestEntry]
  split
  -- The gray is closer than every entry of the cube.
  · next hcloser =>
    exact argmin_eq_some_of_first (fun entry hentry => hcloser.trans_le (hcube hentry).1) nofun
  -- The entry of the cube is closer than the others, and the gray comes after it.
  · next hfarther =>
    obtain ⟨before, after, hsplit, hnot⟩ :=
      List.eq_append_cons_of_mem (mem_cubeEntries.mpr c.nearestCube_mem)
    rw [hsplit] at hcube ⊢
    rw [List.append_assoc, List.cons_append]
    refine argmin_eq_some_of_first (fun entry hentry => ?_) fun entry hentry => ?_
    · obtain ⟨-, hsame⟩ := hcube (List.mem_append_left _ hentry)
      rw [entryRgb_nearestCube]
      exact Nat.lt_of_not_le fun hle => hnot (hsame hle ▸ hentry)
    · rw [entryRgb_nearestCube]
      obtain hentry | hentry := List.mem_append.mp hentry
      · exact (hcube (List.mem_append_right _ (List.mem_cons_of_mem _ hentry))).1
      · obtain rfl := List.mem_singleton.mp hentry
        exact Nat.le_of_not_lt hfarther

end Rgb

/-! ### Colours -/

/-- **What a terminal shows of a colour is the colour that fits it.** -/
theorem Support.shown_eq (support : Support) (color : Color) :
    support.shown color = some (support.fit color) := by
  cases support with
  | truecolor | colorless => rfl
  | palette =>
    cases color with
    | basic entry | indexed entry => rfl
    | direct c => rw [Support.shown, c.closest?_eq, Option.map_some, Support.fit]
  | grayscale =>
    cases color with
    | basic entry => rfl
    | indexed entry =>
      rw [Support.shown, (entryRgb entry).closestGray?_eq, Option.map_some, Support.fit]
      rfl
    | direct c => rw [Support.shown, c.closestGray?_eq, Option.map_some, Support.fit]

/-- A colour between yellow and red, as its closest entry and as a gray. -/
example : Support.palette.shown (.direct ⟨255, 128, 0⟩) = some (.indexed 214) ∧
    Support.grayscale.shown (.direct ⟨255, 128, 0⟩) = some (.indexed 243) := by
  rw [Support.shown_eq, Support.shown_eq]
  decide +kernel

/-- A side without a colour shows none, and one with a colour the colour that fits. -/
theorem Support.bind_shown (support : Support) (selected : Option Color) :
    selected.bind support.shown = selected.map support.fit := by
  cases selected with
  | none => rfl
  | some color => exact support.shown_eq color

end BoxTree
