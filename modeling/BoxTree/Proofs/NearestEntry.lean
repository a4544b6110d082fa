import BoxTree.Color.Palette
import Mathlib

namespace BoxTree

/-!
# The entry that stands in for a colour

The palette is not searched. Each channel goes to its closest level for the cube, and the mean of the
channels, rounded down, to its closest level for the ramp; the closer one of these two entries is taken. In
the cube that is the closest entry there is. On the ramp it need not be: rounding down may take the mean
back across the middle between two levels, and the upper one is passed over though it is closer.

* `closestPlace_spec` — what is found in a table of levels.
* `cubeLevel`, `rampLevel` — the levels as numbers.
* `Rgb.distance_cube_le` — the entry of the cube is the closest one, and the only one.
* `Rgb.PassesOver` — the mean falls short of an entry of the ramp.
* `Rgb.distance_gray_sub` — how much closer one gray is than another.
* `Rgb.distance_ramp_le` — the gray of the mean is the closest one, unless a closer one is passed over.
* `nearest_unless_passed_over` — how good the entry is that is taken.
* `closer_gray_is_passed_over` — a colour for which there is a closer one.
-/

/-! ### Tables of levels -/

/-- **What is found in a table**: an entry at its place, such that no entry is closer, and none before it as
    close. -/
theorem closestPlace_spec (value : Nat) {levels : List UInt8} (hne : levels ≠ []) :
    let best := closestPlace value levels
    levels[best.1]? = some best.2 ∧
      (∀ level ∈ levels, gap best.2.toNat value ≤ gap level.toNat value) ∧
      ∀ i < best.1, ∀ level, levels[i]? = some level → gap best.2.toNat value < gap level.toNat value := by
  fun_induction closestPlace value levels with
  | case1 => exact absurd rfl hne
  | case2 level => simp
  | case3 level rest hrest best hcloser ih =>
    -- The first entry is as close as the best of the others.
    obtain ⟨-, hbest, -⟩ := ih hrest
    refine ⟨rfl, List.forall_mem_cons.mpr ⟨le_refl _, fun other hother => ?_⟩, by simp⟩
    exact hcloser.trans (hbest other hother)
  | case4 level rest hrest best hfarther ih =>
    obtain ⟨hplace, hbest, hfirst⟩ := ih hrest
    have hlt := Nat.lt_of_not_le hfarther
    refine ⟨hplace, List.forall_mem_cons.mpr ⟨hlt.le, hbest⟩, fun i hi other hother => ?_⟩
    cases i with
    | zero =>
      obtain rfl := Option.some.inj hother
      exact hlt
    | succ i => exact hfirst i (Nat.lt_of_succ_lt_succ hi) other hother

/-- A table of no more than 256 levels has a byte for every place, so none is cut off. -/
theorem toNat_closestLevel (value : Nat) {levels : List UInt8} (hne : levels ≠ [])
    (hlength : levels.length ≤ 256) :
    (closestLevel levels value).1.toNat = (closestPlace value levels).1 := by
  have hlt := (List.getElem?_eq_some_iff.mp (closestPlace_spec value hne).1).1
  exact UInt8.toNat_ofNat_of_lt' (hlt.trans_le hlength)

/-- What is found in such a table, by the places of its entries. -/
theorem closestLevel_spec (value : Nat) {levels : List UInt8} (hne : levels ≠ [])
    (hlength : levels.length ≤ 256) :
    let place := (closestLevel levels value).1.toNat
    let level := fun place => (levels.getD place 0).toNat
    place < levels.length ∧ (closestLevel levels value).2 = levels.getD place 0 ∧
      (∀ other < levels.length, gap (level place) value ≤ gap (level other) value) ∧
      ∀ other < place, gap (level place) value < gap (level other) value := by
  intro place level
  obtain ⟨hfound, hclosest, hfirst⟩ := closestPlace_spec value hne
  have hlt : (closestPlace value levels).1 < levels.length := (List.getElem?_eq_some_iff.mp hfound).1
  have hplace : place = (closestPlace value levels).1 := toNat_closestLevel value hne hlength
  have hget : ∀ {other}, other < levels.length → levels[other]? = some (levels.getD other 0) := by
    intro other hother
    rw [List.getD_eq_getElem?_getD, List.getElem?_eq_getElem hother, Option.getD_some]
  have hbest : (closestPlace value levels).2 = levels.getD place 0 := by
    rw [hplace]
    exact Option.some.inj (hfound.symm.trans (hget hlt))
  have hlevel : level place = (closestPlace value levels).2.toNat := by rw [hbest]
  refine ⟨hplace ▸ hlt, hbest, fun other hother => ?_, fun other hother => ?_⟩
  · rw [hlevel]
    exact hclosest _ (List.mem_of_getElem? (hget hother))
  · rw [hlevel]
    rw [hplace] at hother
    exact hfirst other hother _ (hget (hother.trans hlt))

/-- A level of the cube. -/
def cubeLevel (place : Nat) : Nat := (cubeLevels.getD place 0).toNat

/-- A level of the ramp. -/
def rampLevel (place : Nat) : Nat := (rampLevels.getD place 0).toNat

theorem cubeLevel_eq {place : Nat} (h : place < 6) : cubeLevel place = 51 * place := by
  decide +revert

theorem rampLevel_eq {place : Nat} (h : place < 24) : rampLevel place = (510 * place + 23) / 46 := by
  decide +revert

/-! ### Distances -/

theorem squaredGap_le {a b c d : Nat} (h : gap a b ≤ gap c d) : squaredGap a b ≤ squaredGap c d :=
  Nat.mul_le_mul h h

theorem gap_le_of_squaredGap_le {a b c d : Nat} (h : squaredGap a b ≤ squaredGap c d) :
    gap a b ≤ gap c d := Nat.mul_self_le_mul_self_iff.mp h

/-- A squared distance is the square of a difference. -/
theorem squaredGap_cast (a b : Nat) : (squaredGap a b : ℤ) = ((a : ℤ) - b) ^ 2 := by
  have hgap : (gap a b : ℤ) = |(a : ℤ) - b| := by
    unfold gap
    obtain h | h := Nat.le_total a b
    · rw [abs_of_nonpos (by omega)]
      omega
    · rw [abs_of_nonneg (by omega)]
      omega
  rw [squaredGap, Nat.cast_mul, hgap, ← sq, sq_abs]

/-! ### The cube -/

/-- The place of the level that is closest to a channel. -/
def cubePlace (channel : UInt8) : Nat := (closestLevel cubeLevels channel.toNat).1.toNat

/-- Levels are 51 apart, so no channel is more than 25 from the closest one. -/
theorem cubePlace_spec (channel : UInt8) :
    cubePlace channel < 6 ∧
      (closestLevel cubeLevels channel.toNat).2 = cubeLevels.getD (cubePlace channel) 0 ∧
      51 * cubePlace channel ≤ channel.toNat + 25 ∧ channel.toNat ≤ 51 * cubePlace channel + 25 := by
  obtain ⟨hlt, hlevel, hclosest, -⟩ :=
    closestLevel_spec channel.toNat (by decide : cubeLevels ≠ []) (by decide)
  have hplace : cubePlace channel < 6 := hlt
  have hchannel : channel.toNat < 256 := channel.toNat_lt
  have hother : (channel.toNat + 25) / 51 < 6 := by omega
  have hgap : gap (cubeLevel (cubePlace channel)) channel.toNat ≤
      gap (cubeLevel ((channel.toNat + 25) / 51)) channel.toNat := hclosest _ hother
  rw [cubeLevel_eq hplace, cubeLevel_eq hother] at hgap
  unfold gap at hgap
  refine ⟨hplace, hlevel, ?_, ?_⟩ <;> omega

/-- No level of the cube is closer to a channel, and no other one as close. -/
theorem squaredGap_cubePlace (channel : UInt8) {place : Nat} (h : place < 6) :
    squaredGap channel.toNat (cubeLevel (cubePlace channel)) ≤
        squaredGap channel.toNat (cubeLevel place) ∧
      (squaredGap channel.toNat (cubeLevel place) ≤
        squaredGap channel.toNat (cubeLevel (cubePlace channel)) → place = cubePlace channel) := by
  obtain ⟨hplace, -, hlow, hhigh⟩ := cubePlace_spec channel
  rw [cubeLevel_eq h, cubeLevel_eq hplace]
  refine ⟨squaredGap_le ?_, fun hle => ?_⟩
  · unfold gap
    omega
  · have hgap := gap_le_of_squaredGap_le hle
    unfold gap at hgap
    omega

/-- The entries of the cube by the places of their channels. -/
theorem exists_cube_places {entry : UInt8} (hstart : cubeStart ≤ entry) (hstop : entry < rampStart) :
    ∃ red green blue, red < 6 ∧ green < 6 ∧ blue < 6 ∧
      entry.toNat = 16 + 36 * red + 6 * green + blue ∧
      entryRgb entry =
        ⟨cubeLevels.getD red 0, cubeLevels.getD green 0, cubeLevels.getD blue 0⟩ := by
  have hlow : 16 ≤ entry.toNat := UInt8.le_iff_toNat_le.mp hstart
  have hhigh : entry.toNat < 232 := UInt8.lt_iff_toNat_lt.mp hstop
  refine ⟨(entry.toNat - 16) / 36, (entry.toNat - 16) / 6 % 6, (entry.toNat - 16) % 6,
    by omega, by omega, by omega, by omega, ?_⟩
  unfold entryRgb
  rw [if_neg (UInt8.not_lt.mpr hstart), if_neg (UInt8.not_le.mpr hstop)]
  rfl

namespace Rgb

variable (c : Rgb)

/-- The channels of the entry of the cube are the levels at the places found. -/
theorem cubeRgb_eq :
    c.cubeRgb = ⟨cubeLevels.getD (cubePlace c.red) 0, cubeLevels.getD (cubePlace c.green) 0,
      cubeLevels.getD (cubePlace c.blue) 0⟩ := by
  unfold cubeRgb
  rw [(cubePlace_spec c.red).2.1, (cubePlace_spec c.green).2.1, (cubePlace_spec c.blue).2.1]

/-- The number of an entry of the cube is a byte. -/
theorem toNat_nearestCube :
    c.nearestCube.toNat = 16 + 36 * cubePlace c.red + 6 * cubePlace c.green + cubePlace c.blue := by
  have hred := (cubePlace_spec c.red).1
  have hgreen := (cubePlace_spec c.green).1
  have hblue := (cubePlace_spec c.blue).1
  unfold cubePlace at *
  unfold nearestCube
  simp only [UInt8.toNat_add, UInt8.toNat_mul]
  rw [show cubeStart.toNat = 16 from rfl, show (36 : UInt8).toNat = 36 from rfl,
    show (6 : UInt8).toNat = 6 from rfl]
  omega

/-- What is found in the cube is one of its entries. -/
theorem nearestCube_mem : cubeStart ≤ c.nearestCube ∧ c.nearestCube < rampStart := by
  have hred := (cubePlace_spec c.red).1
  have hgreen := (cubePlace_spec c.green).1
  have hblue := (cubePlace_spec c.blue).1
  rw [UInt8.le_iff_toNat_le, UInt8.lt_iff_toNat_lt, toNat_nearestCube,
    show cubeStart.toNat = 16 from rfl, show rampStart.toNat = 232 from rfl]
  omega

/-- The entry of the cube has the closest levels as its channels. -/
theorem entryRgb_nearestCube : entryRgb c.nearestCube = c.cubeRgb := by
  obtain ⟨hstart, hstop⟩ := c.nearestCube_mem
  obtain ⟨red, green, blue, hred, hgreen, hblue, hentry, hrgb⟩ := exists_cube_places hstart hstop
  have hred' := (cubePlace_spec c.red).1
  have hgreen' := (cubePlace_spec c.green).1
  have hblue' := (cubePlace_spec c.blue).1
  rw [toNat_nearestCube] at hentry
  -- Places are digits of the number of the entry.
  obtain ⟨rfl, rfl, rfl⟩ : red = cubePlace c.red ∧ green = cubePlace c.green ∧
      blue = cubePlace c.blue := by omega
  rw [hrgb, cubeRgb_eq]

/-- **No entry of the cube is closer** than the one with the closest levels, and no other one is as close. -/
theorem distance_cube_le {entry : UInt8} (hstart : cubeStart ≤ entry) (hstop : entry < rampStart) :
    c.distance c.cubeRgb ≤ c.distance (entryRgb entry) ∧
      (c.distance (entryRgb entry) ≤ c.distance c.cubeRgb → entry = c.nearestCube) := by
  obtain ⟨red, green, blue, hred, hgreen, hblue, hentry, hrgb⟩ := exists_cube_places hstart hstop
  obtain ⟨hle, heq⟩ := squaredGap_cubePlace c.red hred
  obtain ⟨hle', heq'⟩ := squaredGap_cubePlace c.green hgreen
  obtain ⟨hle'', heq''⟩ := squaredGap_cubePlace c.blue hblue
  rw [hrgb, cubeRgb_eq]
  unfold distance
  dsimp only
  unfold cubeLevel at *
  refine ⟨by omega, fun h => UInt8.toNat_inj.mp ?_⟩
  -- Where the sums are the same, so are the channels one by one.
  rw [hentry, toNat_nearestCube, ← heq (by omega), ← heq' (by omega), ← heq'' (by omega)]

end Rgb

/-! ### The ramp -/

/-- The entries of the ramp by their places. -/
theorem exists_ramp_place {entry : UInt8} (hstart : rampStart ≤ entry) :
    ∃ place < 24, entry.toNat = 232 + place ∧ entry.toNat - rampStart.toNat = place ∧
      entryRgb entry =
        ⟨rampLevels.getD place 0, rampLevels.getD place 0, rampLevels.getD place 0⟩ := by
  have hlow : 232 ≤ entry.toNat := UInt8.le_iff_toNat_le.mp hstart
  have hhigh : entry.toNat < 256 := entry.toNat_lt
  have hcube : ¬entry < cubeStart := by
    rw [UInt8.lt_iff_toNat_lt, show cubeStart.toNat = 16 from rfl]
    omega
  refine ⟨entry.toNat - 232, by omega, by omega, rfl, ?_⟩
  unfold entryRgb
  rw [if_neg hcube, if_pos hstart]
  rfl

namespace Rgb

/-- The sum of the channels. -/
def sum (c : Rgb) : Nat := c.red.toNat + c.green.toNat + c.blue.toNat

/-- Rounded down, the mean of the channels is no farther from the level before an entry of the ramp than
    from the level of the entry; the exact mean is. -/
def PassesOver (c : Rgb) (entry : UInt8) : Prop :=
  rampStart < entry ∧
    let place := entry.toNat - rampStart.toNat
    let twiceMiddle := rampLevel (place - 1) + rampLevel place
    2 * c.mean ≤ twiceMiddle ∧ 3 * twiceMiddle < 2 * c.sum

variable (c : Rgb)

/-- The place of the level that is closest to the mean. -/
def rampPlace : Nat := (closestLevel rampLevels c.mean).1.toNat

/-- The level that is found for the mean is as close as any, and closer than those before it. -/
theorem rampPlace_spec :
    c.rampPlace < 24 ∧
      (∀ other < 24, gap (rampLevel c.rampPlace) c.mean ≤ gap (rampLevel other) c.mean) ∧
      ∀ other < c.rampPlace, gap (rampLevel c.rampPlace) c.mean < gap (rampLevel other) c.mean := by
  obtain ⟨hlt, -, hclosest, hfirst⟩ :=
    closestLevel_spec c.mean (by decide : rampLevels ≠ []) (by decide)
  exact ⟨hlt, hclosest, hfirst⟩

/-- The number of an entry of the ramp is a byte. -/
theorem toNat_nearestGray : c.nearestGray.toNat = 232 + c.rampPlace := by
  have hplace := c.rampPlace_spec.1
  unfold rampPlace at *
  unfold nearestGray
  rw [UInt8.toNat_add, show rampStart.toNat = 232 from rfl]
  omega

/-- What is found on the ramp is one of its entries. -/
theorem rampStart_le_nearestGray : rampStart ≤ c.nearestGray := by
  rw [UInt8.le_iff_toNat_le, toNat_nearestGray, show rampStart.toNat = 232 from rfl]
  omega

/-- **How much closer one gray is than another** depends on the middle between them and on the sum of the
    channels. -/
theorem distance_gray_sub (level other : UInt8) :
    (c.distance ⟨level, level, level⟩ : ℤ) - c.distance ⟨other, other, other⟩ =
      ((other.toNat : ℤ) - level.toNat) * (2 * c.sum - 3 * (level.toNat + other.toNat)) := by
  simp only [distance, sum, Nat.cast_add, squaredGap_cast]
  ring

/-- The same for entries of the ramp. -/
theorem distance_ramp_sub {entry : UInt8} (hstart : rampStart ≤ entry) :
    let level : ℤ := rampLevel c.rampPlace
    let other : ℤ := rampLevel (entry.toNat - rampStart.toNat)
    (c.distance (entryRgb c.nearestGray) : ℤ) - c.distance (entryRgb entry) =
      (other - level) * (2 * c.sum - 3 * (level + other)) := by
  intro level other
  obtain ⟨place, -, -, hplace, hrgb⟩ := exists_ramp_place hstart
  obtain ⟨gray, -, hgray, -, hrgb'⟩ := exists_ramp_place c.rampStart_le_nearestGray
  rw [toNat_nearestGray] at hgray
  obtain rfl : gray = c.rampPlace := by omega
  have hother : other = rampLevel place := by rw [← hplace]
  rw [hrgb, hrgb', distance_gray_sub, hother]
  rfl

/-- The mean lies between the middles around its level, as far as it is rounded down. -/
theorem mean_bounds {place : Nat} (h : place < 24) :
    (c.rampPlace < place → 2 * c.mean ≤ rampLevel c.rampPlace + rampLevel place) ∧
      (place < c.rampPlace → rampLevel place + rampLevel c.rampPlace < 2 * c.mean) := by
  obtain ⟨hplace, hclosest, hfirst⟩ := c.rampPlace_spec
  have hle := hclosest place h
  have hlt := hfirst place
  rw [rampLevel_eq h, rampLevel_eq hplace] at *
  unfold gap at *
  refine ⟨fun hbehind => ?_, fun hbefore => ?_⟩
  · omega
  · have := hlt hbefore
    omega

/-- What rounding down leaves out. -/
theorem sum_bounds : 3 * c.mean ≤ c.sum ∧ c.sum ≤ 3 * c.mean + 2 := by
  unfold mean sum
  omega

/-- **No entry of the ramp is closer** than the one closest to the mean, unless it is passed over; then it is
    closer by 48 at most. -/
theorem distance_ramp_le {entry : UInt8} (hstart : rampStart ≤ entry) :
    c.distance (entryRgb c.nearestGray) ≤ c.distance (entryRgb entry) ∨
      c.PassesOver entry ∧
        c.distance (entryRgb c.nearestGray) ≤ c.distance (entryRgb entry) + 48 := by
  have hsub := c.distance_ramp_sub hstart
  obtain ⟨place, hplace, hentry, hp, -⟩ := exists_ramp_place hstart
  obtain ⟨hbehind, hbefore⟩ := c.mean_bounds hplace
  obtain ⟨hlow, hhigh⟩ := c.sum_bounds
  have hgray := c.rampPlace_spec.1
  have hlevel := rampLevel_eq hgray
  have hother := rampLevel_eq hplace
  dsimp only at hsub
  rw [hp] at hsub
  obtain hlt | rfl | hgt := Nat.lt_trichotomy place c.rampPlace
  · -- An entry before the one taken: the mean is above the middle.
    have hless := hbefore hlt
    have hnonpos := mul_nonpos_of_nonpos_of_nonneg
      (show (rampLevel place : ℤ) - rampLevel c.rampPlace ≤ 0 by omega)
      (show 0 ≤ 2 * (c.sum : ℤ) - 3 * (rampLevel c.rampPlace + rampLevel place) by omega)
    left
    omega
  · left
    rw [sub_self, zero_mul] at hsub
    omega
  · -- An entry behind it: rounded down, the mean is not above the middle.
    have hmore := hbehind hgt
    have hpositive : 0 ≤ (rampLevel place : ℤ) - rampLevel c.rampPlace := by omega
    by_cases hmiddle : 3 * (rampLevel c.rampPlace + rampLevel place) < 2 * c.sum
    · right
      -- Only the next entry is near enough for that.
      have hnext : place - 1 = c.rampPlace := by
        by_contra hne
        obtain ⟨hbetween, -⟩ := c.mean_bounds (show c.rampPlace + 1 < 24 by omega)
        have hbound := hbetween (Nat.lt_succ_self _)
        rw [rampLevel_eq (show c.rampPlace + 1 < 24 by omega)] at hbound
        omega
      have hbound := mul_le_mul
        (show (rampLevel place : ℤ) - rampLevel c.rampPlace ≤ 12 by omega)
        (show 2 * (c.sum : ℤ) - 3 * (rampLevel c.rampPlace + rampLevel place) ≤ 4 by omega)
        (by omega) (by omega)
      refine ⟨⟨?_, ?_⟩, by omega⟩
      · rw [UInt8.lt_iff_toNat_lt, hentry, show rampStart.toNat = 232 from rfl]
        omega
      · simp only [hp, hnext]
        exact ⟨hmore, hmiddle⟩
    · have hnonpos := mul_nonpos_of_nonneg_of_nonpos hpositive
        (show 2 * (c.sum : ℤ) - 3 * (rampLevel c.rampPlace + rampLevel place) ≤ 0 by omega)
      left
      omega

/-- An entry that is passed over is closer than the one that is taken from the ramp. -/
theorem PassesOver.closer {c : Rgb} {entry : UInt8} (h : c.PassesOver entry) :
    c.distance (entryRgb entry) < c.distance (entryRgb c.nearestGray) := by
  obtain ⟨hstart, hmean, hmiddle⟩ := h
  have hsub := c.distance_ramp_sub (UInt8.le_of_lt hstart)
  obtain ⟨place, hplace, hentry, hp, -⟩ := exists_ramp_place (UInt8.le_of_lt hstart)
  have hlt : 232 < entry.toNat := UInt8.lt_iff_toNat_lt.mp hstart
  dsimp only at hmean hmiddle hsub
  rw [hp] at hmean hmiddle hsub
  have hgray := c.rampPlace_spec.1
  have hbefore := c.mean_bounds (show place - 1 < 24 by omega)
  have hbehind := c.mean_bounds hplace
  obtain ⟨-, hhigh⟩ := c.sum_bounds
  have hlevel := rampLevel_eq hgray
  have hother := rampLevel_eq hplace
  have hprevious := rampLevel_eq (show place - 1 < 24 by omega)
  -- The mean is so close to the middle that the level before it is the closest one.
  have hnext : c.rampPlace = place - 1 := by
    obtain hless | heq | hmore := Nat.lt_trichotomy c.rampPlace (place - 1)
    · have := hbefore.1 hless
      omega
    · exact heq
    · obtain rfl | hbetween := Nat.eq_or_lt_of_le (show place ≤ c.rampPlace by omega)
      · have := hbefore.2 hmore
        omega
      · have := hbehind.2 hbetween
        omega
  rw [hnext] at hsub
  have hpos := mul_pos (show 0 < (rampLevel place : ℤ) - rampLevel (place - 1) by omega)
    (show 0 < 2 * (c.sum : ℤ) - 3 * (rampLevel (place - 1) + rampLevel place) by omega)
  omega

/-! ### The entry that is taken -/

/-- The closer one of the two candidates is taken. -/
theorem distance_nearestEntry_le :
    c.distance (entryRgb c.nearestEntry) ≤ c.distance c.cubeRgb ∧
      c.distance (entryRgb c.nearestEntry) ≤ c.distance (entryRgb c.nearestGray) := by
  unfold nearestEntry
  split
  · next hcloser => exact ⟨hcloser.le, le_refl _⟩
  · next hnot =>
    rw [entryRgb_nearestCube]
    exact ⟨le_refl _, Nat.le_of_not_lt hnot⟩

/-- The entry of the cube stands in unless the gray is closer. -/
theorem nearestEntry_eq_nearestCube (h : c.distance c.cubeRgb ≤ c.distance (entryRgb c.nearestGray)) :
    c.nearestEntry = c.nearestCube := if_neg (Nat.not_lt.mpr h)

/-- No basic colour stands in. -/
theorem cubeStart_le_nearestEntry : cubeStart ≤ c.nearestEntry := by
  unfold nearestEntry
  split
  · exact UInt8.le_trans (by decide) c.rampStart_le_nearestGray
  · exact c.nearestCube_mem.1

/-- Whatever entry there is, the one taken is as close, unless it is passed over; then it is closer by 48 at
    most. -/
theorem distance_nearestEntry_le_entry {entry : UInt8} (hstart : cubeStart ≤ entry) :
    c.distance (entryRgb c.nearestEntry) ≤ c.distance (entryRgb entry) ∨
      c.PassesOver entry ∧
        c.distance (entryRgb c.nearestEntry) ≤ c.distance (entryRgb entry) + 48 := by
  obtain ⟨hcube, hgray⟩ := c.distance_nearestEntry_le
  by_cases hramp : rampStart ≤ entry
  · obtain hle | ⟨hpassed, hle⟩ := c.distance_ramp_le hramp
    · exact .inl (hgray.trans hle)
    · exact .inr ⟨hpassed, hgray.trans hle⟩
  · exact .inl (hcube.trans (c.distance_cube_le hstart (UInt8.not_le.mp hramp)).1)

/-- Where both candidates are as close as the closest entry of the ramp, the entry of the cube is taken. -/
theorem nearestEntry_of_tie {cube gray : UInt8} (hstart : cubeStart ≤ cube) (hstop : cube < rampStart)
    (closestCube : ∀ other, cubeStart ≤ other → other < rampStart →
      c.distance (entryRgb cube) ≤ c.distance (entryRgb other))
    (closestGray : ∀ other, rampStart ≤ other →
      c.distance (entryRgb gray) ≤ c.distance (entryRgb other))
    (tie : c.distance (entryRgb cube) = c.distance (entryRgb gray)) : c.nearestEntry = cube := by
  obtain ⟨hstart', hstop'⟩ := c.nearestCube_mem
  have hbest := closestCube _ hstart' hstop'
  rw [entryRgb_nearestCube] at hbest
  obtain ⟨hleast, hunique⟩ := c.distance_cube_le hstart hstop
  obtain rfl := hunique hbest
  refine c.nearestEntry_eq_nearestCube ?_
  calc c.distance c.cubeRgb
      = c.distance (entryRgb gray) := by rw [← entryRgb_nearestCube, tie]
    _ ≤ c.distance (entryRgb c.nearestGray) := closestGray _ c.rampStart_le_nearestGray

end Rgb

/-- **The entry that stands in for a colour** is one of the cube or the ramp. It is the closest of them if and
    only if for every entry of the ramp that is passed over there is one of the cube that is as close. In any
    case its squared distance is no more than 48 above the least. If the closest entry of the cube and the
    closest one of the ramp are equally close, it is the entry of the cube. -/
theorem nearest_unless_passed_over (c : Rgb) :
    let chosen := entryRgb c.nearestEntry
    cubeStart ≤ c.nearestEntry ∧
      ((∀ entry, cubeStart ≤ entry → c.distance chosen ≤ c.distance (entryRgb entry)) ↔
        ∀ gray, c.PassesOver gray → ∃ cube, cubeStart ≤ cube ∧ cube < rampStart ∧
          c.distance (entryRgb cube) ≤ c.distance (entryRgb gray)) ∧
      (∀ entry, cubeStart ≤ entry → c.distance chosen ≤ c.distance (entryRgb entry) + 48) ∧
      ∀ cube gray, cubeStart ≤ cube → cube < rampStart → rampStart ≤ gray →
        (∀ other, cubeStart ≤ other → other < rampStart →
          c.distance (entryRgb cube) ≤ c.distance (entryRgb other)) →
        (∀ other, rampStart ≤ other → c.distance (entryRgb gray) ≤ c.distance (entryRgb other)) →
        c.distance (entryRgb cube) = c.distance (entryRgb gray) → c.nearestEntry = cube := by
  intro chosen
  obtain ⟨hcube, hgray⟩ := c.distance_nearestEntry_le
  refine ⟨c.cubeStart_le_nearestEntry, ⟨fun least gray passed => ?_, fun enough entry hstart => ?_⟩,
    fun entry hstart => ?_, fun cube gray hstart hstop _ => c.nearestEntry_of_tie hstart hstop⟩
  · -- What is taken cannot be the candidate of the ramp, for the gray passed over is closer than that.
    have hleast := least gray (UInt8.le_trans (by decide) (UInt8.le_of_lt passed.1))
    have hcloser := passed.closer
    have hcandidate : c.distance c.cubeRgb ≤ c.distance (entryRgb c.nearestGray) := by
      by_contra hnot
      have hchosen : c.nearestEntry = c.nearestGray := if_pos (Nat.lt_of_not_le hnot)
      have hsame : chosen = entryRgb c.nearestGray := congrArg entryRgb hchosen
      rw [hsame] at hleast
      omega
    have hchosen : chosen = entryRgb c.nearestCube :=
      congrArg entryRgb (c.nearestEntry_eq_nearestCube hcandidate)
    exact ⟨c.nearestCube, c.nearestCube_mem.1, c.nearestCube_mem.2, hchosen ▸ hleast⟩
  · obtain hle | ⟨hpassed, -⟩ := c.distance_nearestEntry_le_entry hstart
    · exact hle
    · obtain ⟨cube, hstart', hstop', hcloser⟩ := enough entry hpassed
      exact (hcube.trans (c.distance_cube_le hstart' hstop').1).trans hcloser
  · obtain hle | ⟨-, hle⟩ := c.distance_nearestEntry_le_entry hstart
    · exact hle.trans (Nat.le_add_right _ 48)
    · exact hle

/-- Black is an entry of the cube and one of the ramp. The one of the cube stands in for it. -/
theorem black_goes_to_cube :
    let black : Rgb := ⟨0, 0, 0⟩
    black.distance (entryRgb 16) = black.distance (entryRgb 232) ∧ black.nearestEntry = 16 := by
  intro black
  have hcube : black.distance (entryRgb 16) = 0 := by decide
  have hgray : black.distance (entryRgb 232) = 0 := by decide
  obtain ⟨-, -, -, tie⟩ := nearest_unless_passed_over black
  refine ⟨hcube.trans hgray.symm, tie 16 232 (by decide) (by decide) (by decide) ?_ ?_ ?_⟩
  · intro other _ _
    exact hcube.le.trans (Nat.zero_le _)
  · intro other _
    exact hgray.le.trans (Nat.zero_le _)
  · exact hcube.trans hgray.symm

/-- The channels of this colour have the mean 27 and two thirds, which is closer to 33 than to 22. Rounded
    down it is closer to 22, and the entry of that gray is taken. -/
theorem closer_gray_is_passed_over :
    let c : Rgb := ⟨27, 28, 28⟩
    c.nearestEntry = 234 ∧ c.distance (entryRgb 234) = 97 ∧ c.distance (entryRgb 235) = 86 ∧
      ¬∀ entry, cubeStart ≤ entry →
        c.distance (entryRgb c.nearestEntry) ≤ c.distance (entryRgb entry) := by
  intro c
  have hchosen : c.nearestEntry = 234 := by decide +kernel
  have htaken : c.distance (entryRgb 234) = 97 := by decide +kernel
  have hcloser : c.distance (entryRgb 235) = 86 := by decide +kernel
  refine ⟨hchosen, htaken, hcloser, fun least => ?_⟩
  have hleast := least 235 (by decide)
  rw [hchosen, htaken, hcloser] at hleast
  omega

end BoxTree
