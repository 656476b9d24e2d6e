import Keypad.Proofs.Decimal.SignificantDigits

/-!
# The fewest digits, and the nearest with as many

What lies between a magnitude and a decimal that reads back reads back as well.  So if any point of
a grid does, then one of the two around the magnitude does, and these are the points that the search
tries.  A decimal with few digits lies on a coarse grid, unless it starts behind the leading place
of the magnitude; then the power of ten between the two reads back.  Hence the search passes over no
decimal with fewer digits, and over none with as many that is nearer.
-/

namespace Keypad.Decimal

open Binary64 (units unitExponent finiteCount absValue)

/-! ## The decimals that read back -/

theorem rank_congr {d d' : Decimal} (hfinite : d.rank < finiteCount) (hvalue : d'.value = d.value) :
    d'.rank = d.rank :=
  rank_of_toBinary64 hfinite (toBinary64_congr false hvalue)

theorem rank_exact {rank : Nat} (hfinite : rank < finiteCount) : (exact rank).rank = rank :=
  rank_of_toBinary64 hfinite (toBinary64_exact false rank)

/-- A smaller decimal has no higher rank. -/
theorem rank_mono {d d' : Decimal} (hfinite : d'.rank < finiteCount) (hle : d.value ≤ d'.value) :
    d.rank ≤ d'.rank := by
  have hnearest := isNearestRank_rank (isHuge_eq_false hfinite)
  have hunder := hnearest.lt_finiteCount_iff.mp hfinite
  have hfinite' : d.rank < finiteCount := by
    by_contra hover
    have hinfinite := d.isNearest_toBinary64 false
    rw [toBinary64, Binary64.ofRank_of_le false (Nat.not_lt.mp hover)] at hinfinite
    have hlarge := mul_le_mul_of_nonneg_right (hinfinite.2.trans hle)
      (show (0 : ℚ) ≤ 2 ^ unitExponent by positivity)
    exact absurd hunder (not_lt.mpr hlarge)
  exact (isNearestRank_rank (isHuge_eq_false hfinite')).mono hfinite hnearest hle

/-- What lies between a magnitude and a decimal that reads back reads back. -/
theorem rank_of_between {d d' : Decimal} {rank : Nat} (hfinite : rank < finiteCount)
    (hback : d.rank = rank)
    (hbetween : d.value ≤ d'.value ∧ d'.value ≤ absValue rank ∨
      absValue rank ≤ d'.value ∧ d'.value ≤ d.value) : d'.rank = rank := by
  have hexact := rank_exact hfinite
  rw [← value_exact rank] at hbetween
  have hmono : ∀ {low high : Decimal}, low.rank = rank → high.rank = rank →
      low.value ≤ d'.value → d'.value ≤ high.value → d'.rank = rank := by
    intro low high hlow hhigh hle hle'
    have hupper := rank_mono (hhigh ▸ hfinite) hle'
    rw [hhigh] at hupper
    have hlower := rank_mono (hupper.trans_lt hfinite) hle
    rw [hlow] at hlower
    exact le_antisymm hupper hlower
  rcases hbetween with ⟨hle, hle'⟩ | ⟨hle, hle'⟩
  · exact hmono hback hexact hle hle'
  · exact hmono hexact hback hle hle'

/-! ## Grid points -/

/-- A magnitude as a number of grid steps. -/
def steps (rank : Nat) (place : Int) : ℚ := absValue rank / 10 ^ place

/-- The last grid point that is not above a magnitude. -/
def pointBelow (rank : Nat) (place : Int) : Nat :=
  (scaled (units rank) (1 <<< unitExponent) place).1 /
    (scaled (units rank) (1 <<< unitExponent) place).2

theorem scaled_eq_steps (rank : Nat) (place : Int) :
    ((scaled (units rank) (1 <<< unitExponent) place).1 : ℚ) =
      steps rank place * (scaled (units rank) (1 <<< unitExponent) place).2 := by
  have hpos : (0 : ℚ) < 10 ^ place := by positivity
  rw [scaled, ← gridStep_mul, gridStep, steps, div_mul_eq_mul_div, eq_div_iff hpos.ne',
    Nat.cast_mul, ← Binary64.absValue_mul]
  ring

theorem value_eq_steps (coefficient : Nat) (rank : Nat) (place : Int) :
    |value ⟨coefficient, place⟩ - absValue rank| =
      |coefficient - steps rank place| * 10 ^ place := by
  have hpos : (0 : ℚ) < 10 ^ place := by positivity
  rw [value, ← abs_of_pos hpos, ← abs_mul, abs_of_pos hpos, sub_mul, steps,
    div_mul_cancel₀ _ hpos.ne']

theorem value_le_absValue_iff {coefficient rank : Nat} {place : Int} :
    value ⟨coefficient, place⟩ ≤ absValue rank ↔ coefficient ≤ steps rank place :=
  (le_div_iff₀ (by positivity)).symm

theorem absValue_le_value_iff {coefficient rank : Nat} {place : Int} :
    absValue rank ≤ value ⟨coefficient, place⟩ ↔ steps rank place ≤ coefficient :=
  (div_le_iff₀ (by positivity)).symm

theorem value_le_value {coefficient larger : Nat} (hle : coefficient ≤ larger) (place : Int) :
    value ⟨coefficient, place⟩ ≤ value ⟨larger, place⟩ :=
  mul_le_mul_of_nonneg_right (by exact_mod_cast hle) (by positivity)

/-- A quotient lies between its whole part and the next number. -/
theorem quotient_spec {numerator denominator : Nat} (hdenominator : 0 < denominator) {value : ℚ}
    (hvalue : (numerator : ℚ) = value * denominator) :
    ((numerator / denominator : Nat) : ℚ) ≤ value ∧
      value < ((numerator / denominator : Nat) : ℚ) + 1 := by
  have hpos : (0 : ℚ) < denominator := by exact_mod_cast hdenominator
  have hfloor := Nat.div_mul_le_self numerator denominator
  have hceil := Nat.lt_mul_div_succ numerator hdenominator
  generalize numerator / denominator = low at *
  constructor
  · have hle : (low * denominator : ℚ) ≤ numerator := by exact_mod_cast hfloor
    rw [hvalue] at hle
    exact le_of_mul_le_mul_right hle hpos
  · have hlt : (numerator : ℚ) < denominator * (low + 1) := by exact_mod_cast hceil
    rw [hvalue, mul_comm] at hlt
    exact lt_of_mul_lt_mul_left hlt hpos.le

theorem scaled_pos (rank : Nat) (place : Int) :
    0 < (scaled (units rank) (1 <<< unitExponent) place).2 :=
  Nat.mul_pos (by decide) (powerOfTen_pos _)

/-- A magnitude lies between the grid point below it and the next one. -/
theorem pointBelow_spec (rank : Nat) (place : Int) :
    pointBelow rank place ≤ steps rank place ∧ steps rank place < pointBelow rank place + 1 :=
  quotient_spec (scaled_pos rank place) (scaled_eq_steps rank place)

/-! ## The nearer of two grid points -/

/-- Whether one number is nearer to a value than another, or just as near and, where ties go up,
larger. -/
def IsPreferred (tie : TieBreak) (value x y : ℚ) : Prop :=
  |x - value| < |y - value| ∨ |x - value| = |y - value| ∧ (tie = .up → y < x)

theorem IsPreferred.le {tie : TieBreak} {value x y : ℚ} (hpreferred : IsPreferred tie value x y) :
    |x - value| ≤ |y - value| := by
  rcases hpreferred with hlt | ⟨heq, -⟩
  · exact hlt.le
  · exact heq.le

/-- Counting in grid steps keeps the order of distances. -/
theorem IsPreferred.value {tie : TieBreak} {rank : Nat} {place : Int} {x y : Nat}
    (hpreferred : IsPreferred tie (steps rank place) x y) :
    IsPreferred tie (absValue rank) (Decimal.value ⟨x, place⟩) (Decimal.value ⟨y, place⟩) := by
  have hpos : (0 : ℚ) < 10 ^ place := by positivity
  rw [IsPreferred, value_eq_steps, value_eq_steps]
  rcases hpreferred with hlt | ⟨heq, hup⟩
  · exact Or.inl (mul_lt_mul_of_pos_right hlt hpos)
  · exact Or.inr ⟨by rw [heq], fun htie => mul_lt_mul_of_pos_right (hup htie) hpos⟩

theorem nearerPoint_cases (tie : TieBreak) (low numerator denominator : Nat) :
    let twice := 2 * (numerator - low * denominator)
    let nearer := nearerPoint tie low numerator denominator
    twice < denominator ∧ nearer = low ∨ denominator < twice ∧ nearer = low + 1 ∨
      twice = denominator ∧ (tie = .up → nearer = low + 1) := by
  intro twice nearer
  rcases lt_trichotomy twice denominator with hlt | heq | hgt
  · exact Or.inl ⟨hlt, if_pos hlt⟩
  · refine Or.inr (Or.inr ⟨heq, ?_⟩)
    rintro rfl
    exact (if_neg heq.not_lt).trans (if_neg heq.not_gt)
  · exact Or.inr (Or.inl ⟨hgt, (if_neg hgt.not_gt).trans (if_pos hgt)⟩)

/-- Which of the two grid points around a value is taken depends on the half between them. -/
theorem nearerPoint_spec (tie : TieBreak) {numerator denominator : Nat}
    (hdenominator : 0 < denominator) {value : ℚ}
    (hvalue : (numerator : ℚ) = value * denominator) :
    let low := numerator / denominator
    let nearer := nearerPoint tie low numerator denominator
    2 * (value - low) < 1 ∧ nearer = low ∨ 1 < 2 * (value - low) ∧ nearer = low + 1 ∨
      2 * (value - low) = 1 ∧ (tie = .up → nearer = low + 1) := by
  intro low nearer
  have hpos : (0 : ℚ) < denominator := by exact_mod_cast hdenominator
  have htwice : ((2 * (numerator - low * denominator) : Nat) : ℚ) =
      2 * (value - low) * denominator := by
    rw [Nat.cast_mul, Nat.cast_sub (Nat.div_mul_le_self numerator denominator), Nat.cast_mul,
      hvalue]
    push_cast
    ring
  rcases nearerPoint_cases tie low numerator denominator with
    ⟨hlt, hlow⟩ | ⟨hgt, hnext⟩ | ⟨heq, hup⟩
  · refine Or.inl ⟨?_, hlow⟩
    rw [← mul_lt_iff_lt_one_left hpos, ← htwice]
    exact_mod_cast hlt
  · refine Or.inr (Or.inl ⟨?_, hnext⟩)
    rw [← lt_mul_iff_one_lt_left hpos, ← htwice]
    exact_mod_cast hgt
  · refine Or.inr (Or.inr ⟨?_, hup⟩)
    rw [← mul_eq_right₀ hpos.ne', ← htwice]
    exact_mod_cast heq

/-- Of the two grid points around a value the preferred one is taken. -/
theorem isPreferred_nearerPoint (tie : TieBreak) {numerator denominator : Nat}
    (hdenominator : 0 < denominator) {value : ℚ} (hvalue : (numerator : ℚ) = value * denominator)
    {point : Nat} (hpoint : point = numerator / denominator ∨ point = numerator / denominator + 1)
    (hne : point ≠ nearerPoint tie (numerator / denominator) numerator denominator) :
    IsPreferred tie value (nearerPoint tie (numerator / denominator) numerator denominator)
      point := by
  obtain ⟨hbelow, habove⟩ := quotient_spec hdenominator hvalue
  have hhalf := nearerPoint_spec tie hdenominator hvalue
  dsimp only at hhalf
  have heither := nearerPoint_eq_or tie (numerator / denominator) numerator denominator
  generalize nearerPoint tie (numerator / denominator) numerator denominator = nearer at *
  generalize numerator / denominator = low at *
  have hdown : |(low : ℚ) - value| = value - low := by
    rw [abs_sub_comm]
    exact abs_of_nonneg (sub_nonneg.mpr hbelow)
  have hup : |((low + 1 : Nat) : ℚ) - value| = low + 1 - value := by
    push_cast
    exact abs_of_pos (sub_pos.mpr habove)
  rcases heither with rfl | rfl
  · rw [hpoint.resolve_left hne, IsPreferred, hdown, hup]
    rcases hhalf with ⟨hlt, -⟩ | ⟨-, hnext⟩ | ⟨heq, hnext⟩
    · exact Or.inl (by linarith)
    · exact absurd hnext (Nat.succ_ne_self nearer).symm
    · exact Or.inr ⟨by linarith, fun htie => absurd (hnext htie) (Nat.succ_ne_self nearer).symm⟩
  · rw [hpoint.resolve_right hne, IsPreferred, hdown, hup]
    rcases hhalf with ⟨-, hlow⟩ | ⟨hgt, -⟩ | ⟨heq, -⟩
    · exact absurd hlow (Nat.succ_ne_self low)
    · exact Or.inl (by linarith)
    · exact Or.inr ⟨by linarith, fun _ => by exact_mod_cast Nat.lt_succ_self low⟩

/-! ## The decimal on a grid -/

/-- What is taken on a grid is a neighbour of the magnitude, and preferred to the other one. -/
theorem onGrid?_spec {tie : TieBreak} {rank : Nat} {place : Int} {d : Decimal}
    (hsome : onGrid? tie rank place = some d) :
    d.exponent = place ∧
      ∀ point, (point = pointBelow rank place ∨ point = pointBelow rank place + 1) →
        (⟨point, place⟩ : Decimal).rank = rank → point ≠ d.coefficient →
          IsPreferred tie (steps rank place) d.coefficient point := by
  have hnearer :=
    @isPreferred_nearerPoint tie _ _ (scaled_pos rank place) _ (scaled_eq_steps rank place)
  simp only [onGrid?] at hsome
  rw [pointBelow]
  generalize (scaled (units rank) (1 <<< unitExponent) place).1 /
    (scaled (units rank) (1 <<< unitExponent) place).2 = low at *
  split at hsome
  · cases hsome
    exact ⟨rfl, fun point hpoint _ hne => hnearer hpoint hne⟩
  · next hhigh =>
      cases hsome
      refine ⟨rfl, ?_⟩
      intro point hpoint hback hne
      rw [hpoint.resolve_left hne, ← beq_iff_eq, ← readsBack, hhigh] at hback
      cases hback
  · next hlow _ =>
      cases hsome
      refine ⟨rfl, ?_⟩
      intro point hpoint hback hne
      rw [hpoint.resolve_right hne, ← beq_iff_eq, ← readsBack, hlow] at hback
      cases hback
  · cases hsome

/-- If a grid point reads back, then so does a neighbour of the magnitude that is nearer, unless it
is that point. -/
theorem exists_neighbour {rank point : Nat} {place : Int} (hfinite : rank < finiteCount)
    (hback : (⟨point, place⟩ : Decimal).rank = rank) :
    ∃ neighbour, (neighbour = pointBelow rank place ∨ neighbour = pointBelow rank place + 1) ∧
      (⟨neighbour, place⟩ : Decimal).rank = rank ∧
      (point = neighbour ∨ |neighbour - steps rank place| < |point - steps rank place|) := by
  obtain ⟨hbelow, habove⟩ := pointBelow_spec rank place
  generalize pointBelow rank place = low at *
  rcases Nat.lt_or_ge low point with hhigh | hlow
  · have hnext : steps rank place < (low + 1 : Nat) := by
      push_cast
      exact habove
    refine ⟨low + 1, Or.inr rfl, ?_, ?_⟩
    · exact rank_of_between hfinite hback
        (Or.inr ⟨absValue_le_value_iff.mpr hnext.le, value_le_value hhigh place⟩)
    · refine (Nat.eq_or_lt_of_le hhigh).imp Eq.symm ?_
      intro hlt
      have hcast : ((low + 1 : Nat) : ℚ) < point := by exact_mod_cast hlt
      rw [abs_of_pos (sub_pos.mpr hnext), abs_of_pos (sub_pos.mpr (hnext.trans hcast))]
      linarith
  · refine ⟨low, Or.inl rfl, ?_, ?_⟩
    · exact rank_of_between hfinite hback
        (Or.inl ⟨value_le_value hlow place, value_le_absValue_iff.mpr hbelow⟩)
    · refine (Nat.eq_or_lt_of_le hlow).imp_right ?_
      intro hlt
      have hcast : (point : ℚ) < low := by exact_mod_cast hlt
      rw [abs_sub_comm, abs_sub_comm (point : ℚ), abs_of_nonneg (sub_nonneg.mpr hbelow),
        abs_of_pos (sub_pos.mpr (hcast.trans_le hbelow))]
      linarith

/-- If a grid point reads back, one is found on the grid. -/
theorem exists_onGrid?_of_point (tie : TieBreak) {rank point : Nat} {place : Int}
    (hfinite : rank < finiteCount) (hback : (⟨point, place⟩ : Decimal).rank = rank) :
    ∃ d, onGrid? tie rank place = some d := by
  obtain ⟨neighbour, hneighbour, hback', -⟩ := exists_neighbour hfinite hback
  rw [← beq_iff_eq, ← readsBack] at hback'
  rw [pointBelow] at hneighbour
  simp only [onGrid?]
  rcases hneighbour with rfl | rfl
  · rw [hback']
    split <;> simp_all
  · rw [hback']
    split <;> simp_all

/-- What is taken on a grid is preferred to every other grid point that reads back. -/
theorem isPreferred_of_onGrid? {tie : TieBreak} {rank point : Nat} {place : Int} {d : Decimal}
    (hfinite : rank < finiteCount) (hsome : onGrid? tie rank place = some d)
    (hback : (⟨point, place⟩ : Decimal).rank = rank) (hne : value ⟨point, place⟩ ≠ d.value) :
    IsPreferred tie (absValue rank) d.value (value ⟨point, place⟩) := by
  obtain ⟨hplace, hpreferred⟩ := onGrid?_spec hsome
  obtain ⟨neighbour, hneighbour, hback', hnear⟩ := exists_neighbour hfinite hback
  obtain ⟨coefficient, exponent⟩ := d
  obtain rfl : exponent = place := hplace
  have hpoint : point ≠ coefficient := by
    rintro rfl
    exact hne rfl
  apply IsPreferred.value
  rcases hnear with rfl | hlt
  · exact hpreferred point hneighbour hback' hpoint
  · left
    by_cases hsame : neighbour = coefficient
    · rwa [← hsame]
    · exact (hpreferred neighbour hneighbour hback' hsame).le.trans_lt hlt

theorem abs_sub_le_of_onGrid? {tie : TieBreak} {rank point : Nat} {place : Int} {d : Decimal}
    (hfinite : rank < finiteCount) (hsome : onGrid? tie rank place = some d)
    (hback : (⟨point, place⟩ : Decimal).rank = rank) :
    |d.value - absValue rank| ≤ |value ⟨point, place⟩ - absValue rank| := by
  by_cases hequal : value ⟨point, place⟩ = d.value
  · rw [hequal]
  · exact (isPreferred_of_onGrid? hfinite hsome hback hequal).le

/-! ## The search -/

/-- The search ends on the first grid on which a decimal is found. -/
theorem firstOnGrids?_spec {tie : TieBreak} {rank grids : Nat} {place : Int} {d : Decimal}
    (hsome : firstOnGrids? tie rank place grids = some d) :
    ∃ behind : Nat, onGrid? tie rank (place - behind) = some d ∧
      ∀ earlier : Nat, earlier < behind → onGrid? tie rank (place - earlier) = none := by
  induction grids generalizing place with
  | zero => cases hsome
  | succ grids ih =>
      rw [firstOnGrids?] at hsome
      cases hgrid : onGrid? tie rank place with
      | some found =>
          rw [hgrid] at hsome
          cases hsome
          refine ⟨0, by rwa [Nat.cast_zero, sub_zero], ?_⟩
          intro earlier hlt
          cases hlt
      | none =>
          rw [hgrid] at hsome
          obtain ⟨behind, hfound, hnone⟩ := ih hsome
          have hplace : ∀ more : Nat, place - ((more + 1 : Nat) : Int) = place - 1 - more := by
            intro more
            omega
          refine ⟨behind + 1, by rwa [hplace], ?_⟩
          intro earlier hlt
          cases earlier with
          | zero => rwa [Nat.cast_zero, sub_zero]
          | succ earlier =>
              rw [hplace]
              exact hnone earlier (Nat.lt_of_succ_lt_succ hlt)

/-- A magnitude starts at its leading place. -/
theorem absValue_leadingPlace {rank : Nat} (hpos : 0 < rank) :
    let leading := leadingPlace (units rank) (1 <<< unitExponent)
    (10 : ℚ) ^ leading ≤ absValue rank ∧ absValue rank < 10 ^ (leading + 1) := by
  obtain ⟨low, rfl⟩ := Nat.exists_eq_succ_of_ne_zero hpos.ne'
  obtain ⟨hlow, hhigh⟩ := gridStep_leadingPlace low
  constructor
  · exact (le_div_iff₀ (by positivity)).mpr hlow
  · exact (div_lt_iff₀ (by positivity)).mpr hhigh

/-- A decimal with few digits that does not start behind a place is a point of a coarse grid. -/
theorem exists_point_of_significantDigits {d : Decimal} {leading : Int} {behind : Nat}
    (hleading : 10 ^ leading ≤ d.value) (hdigits : d.significantDigits ≤ behind + 1) :
    ∃ point, value ⟨point, leading - behind⟩ = d.value := by
  have hpos := coefficient_pos_of_value_pos (lt_of_lt_of_le (by positivity) hleading)
  obtain ⟨d', hvalue, hlt⟩ := (significantDigits_le_iff hpos (Nat.succ_pos behind)).mp hdigits
  have hexponent : leading - behind ≤ d'.exponent := by
    have hupper : (10 : ℚ) ^ leading < 10 ^ (((behind + 1 : Nat) : Int) + d'.exponent) := by
      rw [zpow_add₀ (by norm_num), zpow_natCast]
      refine (hvalue ▸ hleading).trans_lt (mul_lt_mul_of_pos_right ?_ (by positivity))
      exact_mod_cast hlt
    have hplaces := (zpow_lt_zpow_iff_right₀ (by norm_num : (1 : ℚ) < 10)).mp hupper
    omega
  obtain ⟨places, hplaces⟩ := Int.eq_ofNat_of_zero_le (sub_nonneg.mpr hexponent)
  refine ⟨d'.coefficient * 10 ^ places, ?_⟩
  rw [← hvalue, value_mul_pow, ← hplaces, add_sub_cancel]

/-- A decimal that reads back lies on the grid for its digits, or else the power of ten at the
leading place reads back and is nearer. -/
theorem exists_point_or_leading {d : Decimal} {rank behind : Nat} (hpos : 0 < rank)
    (hfinite : rank < finiteCount) (hback : d.rank = rank)
    (hdigits : d.significantDigits ≤ behind + 1) :
    let leading := leadingPlace (units rank) (1 <<< unitExponent)
    (∃ point, value ⟨point, leading - behind⟩ = d.value ∧
        (⟨point, leading - behind⟩ : Decimal).rank = rank) ∨
      (⟨1, leading⟩ : Decimal).rank = rank ∧
        |value ⟨1, leading⟩ - absValue rank| < |d.value - absValue rank| := by
  intro leading
  obtain ⟨hlow, -⟩ := absValue_leadingPlace hpos
  rw [← value_one] at hlow
  rcases le_or_gt (value ⟨1, leading⟩) d.value with hle | hlt
  · left
    obtain ⟨point, hvalue⟩ := exists_point_of_significantDigits (value_one leading ▸ hle) hdigits
    exact ⟨point, hvalue, (rank_congr (hback ▸ hfinite) hvalue).trans hback⟩
  · right
    refine ⟨rank_of_between hfinite hback (Or.inl ⟨hlt.le, hlow⟩), ?_⟩
    rw [abs_sub_comm, abs_sub_comm d.value, abs_of_nonneg (sub_nonneg.mpr hlow),
      abs_of_pos (sub_pos.mpr (hlt.trans_le hlow))]
    linarith

/-- Grids on which nothing is found hold no decimal that reads back. -/
theorem lt_significantDigits {tie : TieBreak} {d : Decimal} {rank behind : Nat} (hpos : 0 < rank)
    (hfinite : rank < finiteCount) (hback : d.rank = rank)
    (hnone : ∀ earlier : Nat, earlier < behind →
      onGrid? tie rank (leadingPlace (units rank) (1 <<< unitExponent) - earlier) = none) :
    behind < d.significantDigits := by
  by_contra hfew
  have hdigits := d.significantDigits_pos
  obtain ⟨earlier, hearlier⟩ := Nat.exists_eq_succ_of_ne_zero hdigits.ne'
  rcases exists_point_or_leading hpos hfinite hback hearlier.le with
    ⟨point, -, hpoint⟩ | ⟨hleading, -⟩
  · obtain ⟨found, hfound⟩ := exists_onGrid?_of_point tie hfinite hpoint
    rw [hnone earlier (by omega)] at hfound
    cases hfound
  · obtain ⟨found, hfound⟩ := exists_onGrid?_of_point tie hfinite hleading
    have hfirst := hnone 0 (by omega)
    rw [Nat.cast_zero, sub_zero, hfound] at hfirst
    cases hfirst

/-- What is found some places behind the leading one has no more digits than that. -/
theorem significantDigits_le_of_onGrid? {tie : TieBreak} {rank behind : Nat} {d : Decimal}
    (hpos : 0 < d.coefficient) (hrank : 0 < rank)
    (hsome : onGrid? tie rank (leadingPlace (units rank) (1 <<< unitExponent) - behind) = some d) :
    d.significantDigits ≤ behind + 1 := by
  obtain ⟨low, rfl⟩ := Nat.exists_eq_succ_of_ne_zero hrank.ne'
  obtain ⟨-, hhigh⟩ := gridStep_leadingPlace low
  obtain ⟨hexponent, hle⟩ := le_of_onGrid? hsome
  generalize leadingPlace (units (low + 1)) (1 <<< unitExponent) = leading at *
  have hstep : gridStep (leading + 1) = 10 ^ (behind + 1) * gridStep (leading - behind) := by
    rw [← gridStep_add]
    congr 1
    push_cast
    omega
  have hlt : (d.coefficient : ℚ) * gridStep (leading - behind) <
      ((10 ^ (behind + 1) + 1 : Nat) : ℚ) * gridStep (leading - behind) := by
    push_cast
    linarith
  have hcoefficient : d.coefficient ≤ 10 ^ (behind + 1) :=
    Nat.le_of_lt_succ (by exact_mod_cast lt_of_mul_lt_mul_right hlt (gridStep_pos _).le)
  rw [significantDigits_le_iff hpos (Nat.succ_pos behind)]
  rcases hcoefficient.lt_or_eq with hlt | heq
  · exact ⟨d, rfl, hlt⟩
  · -- The next power of ten has one digit.
    refine ⟨⟨1, leading + 1⟩, ?_, Nat.one_lt_pow (Nat.succ_ne_zero behind) (by decide)⟩
    have hplace : leading + 1 = leading - behind + (behind + 1 : Nat) := by omega
    rw [hplace, ← value_mul_pow, Nat.one_mul, ← heq, ← hexponent]

theorem isNormal_shortest (tie : TieBreak) {rank : Nat} (hpos : 0 < rank)
    (hfinite : rank < finiteCount) : (shortest tie rank).IsNormal := by
  obtain ⟨-, hcoefficient, -⟩ := shortest_bounds tie hpos hfinite
  rw [shortest] at hcoefficient ⊢
  apply isNormal_normalize
  exact hcoefficient.trans_le (normalize_bounds _).1

/-- No decimal that reads back has fewer digits than the shortest one, and to each other one with as
many digits the shortest one is preferred. -/
theorem shortest_preferred (tie : TieBreak) {rank : Nat} (hpos : 0 < rank)
    (hfinite : rank < finiteCount) {d : Decimal} (hback : d.rank = rank) :
    (shortest tie rank).significantDigits ≤ d.significantDigits ∧
      (d.significantDigits = (shortest tie rank).significantDigits →
        d.value ≠ (shortest tie rank).value →
          IsPreferred tie (absValue rank) (shortest tie rank).value d.value) := by
  obtain ⟨low, hlow⟩ := Nat.exists_eq_succ_of_ne_zero hpos.ne'
  obtain ⟨found, hfirst, -⟩ := exists_firstOnGrids?_seventeen tie (hlow ▸ hfinite)
  rw [← Nat.succ_eq_add_one, ← hlow] at hfirst
  obtain ⟨behind, hsome, hnone⟩ := firstOnGrids?_spec hfirst
  have hshortest : shortest tie rank = found.normalize := by
    rw [shortest, hfirst, Option.getD_some]
  have hcoefficient : 0 < found.coefficient :=
    coefficient_pos_of_rank_pos (by rwa [rank_of_onGrid? hsome])
  have hdigits : (shortest tie rank).significantDigits = found.significantDigits := by
    rw [hshortest]
    exact (significantDigits_congr hcoefficient (value_normalize found).symm).symm
  have hvalue : (shortest tie rank).value = found.value := by
    rw [hshortest, value_normalize]
  have hle := significantDigits_le_of_onGrid? hcoefficient hpos hsome
  have hlt := lt_significantDigits hpos hfinite hback hnone
  rw [hdigits, hvalue]
  refine ⟨hle.trans hlt, ?_⟩
  intro hequal hne
  rcases exists_point_or_leading hpos hfinite hback (hequal.trans_le hle) with
    ⟨point, hpoint, hpoint'⟩ | ⟨hleading, hfurther⟩
  · rw [← hpoint] at hne ⊢
    exact isPreferred_of_onGrid? hfinite hsome hpoint' hne
  · -- The power of ten stands on the first grid, so the search went no further.
    have hfirst : behind = 0 := by
      by_contra hlater
      obtain ⟨power, hpower⟩ := exists_onGrid?_of_point tie hfinite hleading
      have hempty := hnone 0 (Nat.pos_of_ne_zero hlater)
      rw [Nat.cast_zero, sub_zero, hpower] at hempty
      cases hempty
    rw [hfirst, Nat.cast_zero, sub_zero] at hsome
    exact Or.inl ((abs_sub_le_of_onGrid? hfinite hsome hleading).trans_lt hfurther)

/-! ## The shortest decimal -/

/-- Whether a decimal is the one to write for a magnitude: it is in normal form and reads back, no
decimal with fewer digits does, of those with as many digits none is nearer, and none that is as
near is larger. -/
structure IsShortest (rank : Nat) (d : Decimal) : Prop where
  normal : d.IsNormal
  rank_eq : d.rank = rank
  fewest : ∀ d' : Decimal, d'.rank = rank → d.significantDigits ≤ d'.significantDigits
  nearest : ∀ d' : Decimal, d'.rank = rank → d'.significantDigits = d.significantDigits →
    |d.value - absValue rank| ≤ |d'.value - absValue rank|
  largest : ∀ d' : Decimal, d'.rank = rank → d'.significantDigits = d.significantDigits →
    |d.value - absValue rank| = |d'.value - absValue rank| → d'.value ≤ d.value

theorem isShortest_shortest {rank : Nat} (hpos : 0 < rank) (hfinite : rank < finiteCount) :
    IsShortest rank (shortest .up rank) := by
  obtain ⟨hrank, -⟩ := shortest_bounds .up hpos hfinite
  refine ⟨isNormal_shortest .up hpos hfinite, hrank, ?_, ?_, ?_⟩
  · intro d' hback
    exact (shortest_preferred .up hpos hfinite hback).1
  · intro d' hback hdigits
    by_cases hequal : d'.value = (shortest .up rank).value
    · rw [hequal]
    · exact ((shortest_preferred .up hpos hfinite hback).2 hdigits hequal).le
  · intro d' hback hdigits hdistance
    by_cases hequal : d'.value = (shortest .up rank).value
    · exact hequal.le
    · rcases (shortest_preferred .up hpos hfinite hback).2 hdigits hequal with hlt | ⟨-, hup⟩
      · exact absurd hdistance hlt.ne
      · exact (hup rfl).le

/-- A magnitude has one shortest decimal. -/
theorem isShortest_iff {rank : Nat} (hpos : 0 < rank) (hfinite : rank < finiteCount) {d : Decimal} :
    IsShortest rank d ↔ d = shortest .up rank := by
  have hshortest := isShortest_shortest hpos hfinite
  constructor
  · intro hd
    have hdigits : d.significantDigits = (shortest .up rank).significantDigits :=
      le_antisymm (hd.fewest _ hshortest.rank_eq) (hshortest.fewest d hd.rank_eq)
    have hdistance := le_antisymm (hd.nearest _ hshortest.rank_eq hdigits.symm)
      (hshortest.nearest d hd.rank_eq hdigits)
    apply eq_of_value_eq hd.normal hshortest.normal
    exact le_antisymm (hshortest.largest d hd.rank_eq hdigits hdistance.symm)
      (hd.largest _ hshortest.rank_eq hdigits.symm hdistance)
  · rintro rfl
    exact hshortest

end Keypad.Decimal
