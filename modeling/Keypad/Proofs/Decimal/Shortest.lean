import Keypad.Proofs.Binary64.Error
import Keypad.Proofs.Decimal.Value

/-!
# Seventeen digits are enough

A magnitude is at most `2 ^ 53` of the spacings before it, which is less than `10 ^ 16`.  So a grid
that starts sixteen places behind the leading digit is finer than the spacing, and the grid
neighbour that is nearer to the magnitude reads back.  The search ends on this grid or before it:
the shortest decimal has at most seventeen digits.
-/

namespace Keypad.Decimal

open Binary64 (units units_lt_succ units_le_mul_spacing unitExponent finiteCount)

/-! ## The leading place -/

theorem log10_spec {n : Nat} (hpos : 0 < n) : 10 ^ log10 n ≤ n ∧ n < 10 ^ (log10 n + 1) := by
  induction n using log10.induct with
  | case1 n hsmall =>
      rw [log10, dif_pos hsmall]
      omega
  | case2 n hlarge ih =>
      obtain ⟨hle, hlt⟩ := ih (by omega)
      rw [log10, dif_neg hlarge, Nat.pow_succ, Nat.pow_succ]
      rw [Nat.pow_succ] at hlt
      omega

/-- The leading place of a positive quotient is the power of ten that it starts with. -/
theorem leadingPlace_spec {numerator denominator : Nat} (hpos : 0 < numerator)
    (hpos' : 0 < denominator) :
    (10 : ℚ) ^ leadingPlace numerator denominator ≤ numerator / denominator ∧
      (numerator / denominator : ℚ) < 10 ^ (leadingPlace numerator denominator + 1) := by
  have hnumerator : (0 : ℚ) < numerator := by exact_mod_cast hpos
  have hdenominator : (0 : ℚ) < denominator := by exact_mod_cast hpos'
  rw [leadingPlace]
  split
  · next hle =>
      obtain ⟨hlow, hhigh⟩ := log10_spec (Nat.div_pos hle hpos')
      constructor
      · rw [zpow_natCast, le_div_iff₀ hdenominator]
        exact_mod_cast (Nat.le_div_iff_mul_le hpos').mp hlow
      · rw [← Int.natCast_succ, zpow_natCast, div_lt_iff₀ hdenominator]
        exact_mod_cast (Nat.div_lt_iff_lt_mul hpos').mp hhigh
  · next hlt =>
      have hsub : numerator ≤ denominator - 1 := by omega
      obtain ⟨hlow, hhigh⟩ := log10_spec (Nat.div_pos hsub hpos)
      generalize log10 ((denominator - 1) / numerator) = place at *
      rw [Nat.le_div_iff_mul_le hpos] at hlow
      rw [Nat.div_lt_iff_lt_mul hpos] at hhigh
      constructor
      · rw [zpow_neg, zpow_natCast, inv_le_comm₀ (by positivity) (by positivity), inv_div,
          div_le_iff₀ hnumerator]
        exact_mod_cast (show denominator ≤ 10 ^ (place + 1) * numerator by omega)
      · have hexponent : -((place + 1 : Nat) : Int) + 1 = -(place : Int) := by omega
        rw [hexponent, zpow_neg, zpow_natCast, lt_inv_comm₀ (by positivity) (by positivity),
          inv_div, lt_div_iff₀ hnumerator]
        exact_mod_cast (show 10 ^ place * numerator < denominator by omega)

/-! ## Decimals that read back -/

/-- The rank of a decimal is the nearest to it, unless the decimal is past the finite ones. -/
theorem isNearestRank_rank {d : Decimal} (hhuge : d.isHuge = false) :
    Binary64.IsNearestRank (d.value * 2 ^ unitExponent) d.rank := by
  have hunits : d.value * 2 ^ unitExponent =
      ((d.numerator <<< unitExponent : Nat) : ℚ) / d.denominator := by
    rw [value_eq_div, Nat.shiftLeft_eq, Nat.cast_mul, Nat.cast_pow, div_mul_eq_mul_div]
    rfl
  have hnearest :=
    Binary64.isNearestRank_nearestRank (d.numerator <<< unitExponent) d.denominator_pos
  rw [← hunits] at hnearest
  by_cases htiny : d.isTiny = true
  · rw [nearestRank_of_isTiny htiny] at hnearest
    rwa [rank, hhuge, if_neg Bool.false_ne_true, if_pos htiny]
  · rwa [rank, hhuge, if_neg Bool.false_ne_true, if_neg htiny]

theorem isHuge_eq_false {d : Decimal} (hfinite : d.rank < finiteCount) : d.isHuge = false := by
  by_contra hhuge
  rw [rank, if_pos (Bool.eq_true_of_not_eq_false hhuge)] at hfinite
  exact lt_irrefl _ hfinite

theorem rank_of_toBinary64 {d : Decimal} {rank : Nat} (hfinite : rank < finiteCount)
    (hequal : d.toBinary64 false = .ofRank false rank) : d.rank = rank :=
  Binary64.eq_of_ofRank_eq hfinite hequal

/-- A decimal is read as the rank that is the nearest to it. -/
theorem rank_of_isNearestRank {d : Decimal} {rank : Nat} (hfinite : rank < finiteCount)
    (hnearest : Binary64.IsNearestRank (d.value * 2 ^ unitExponent) rank) :
    d.rank = rank :=
  rank_of_toBinary64 hfinite (Binary64.isNearest_unique (d.isNearest_toBinary64 false)
    (Binary64.isNearest_ofRank false hnearest))

/-- A decimal that is nearer to a magnitude than half the spacing before it reads back. -/
theorem rank_of_two_mul_abs_sub_lt {d : Decimal} {low : Nat}
    (hfinite : low + 1 < finiteCount)
    (hnear : 2 * |d.value * 2 ^ unitExponent - units (low + 1)| <
      units (low + 1) - units low) : d.rank = low + 1 := by
  apply rank_of_isNearestRank hfinite
  have hspacing : (2 * units (low + 1) : ℚ) ≤
      units low + units (low + 2) := by
    exact_mod_cast Binary64.two_mul_units_le low
  generalize d.value * 2 ^ unitExponent = q at *
  rcases lt_or_ge q (units (low + 1)) with hbelow | habove
  · rw [abs_of_neg (by linarith)] at hnear
    apply Binary64.isNearestRank_of_between _ hbelow (Or.inr ⟨rfl, by linarith⟩)
    · intro hmiddle
      linarith
    · linarith
  · rw [abs_of_nonneg (by linarith)] at hnear
    apply Binary64.isNearestRank_of_between habove _ (Or.inl ⟨rfl, ?_⟩)
    · intro hmiddle
      change 2 * q = units (low + 1) + units (low + 2) at hmiddle
      linarith
    · change q < units (low + 2)
      linarith
    · change 2 * q ≤ units (low + 1) + units (low + 2)
      linarith

/-! ## Grids -/

/-- The distance of grid points, in units. -/
def gridStep (place : Int) : ℚ := 10 ^ place * 2 ^ unitExponent

theorem gridStep_pos (place : Int) : 0 < gridStep place := by
  unfold gridStep
  positivity

theorem value_mul_eq (coefficient : Nat) (place : Int) :
    value ⟨coefficient, place⟩ * 2 ^ unitExponent = coefficient * gridStep place := by
  rw [value, gridStep, mul_assoc]

/-- The denominator of a scaled quotient is the distance of grid points over its numerator's
factor. -/
theorem gridStep_mul (place : Int) : gridStep place * powerOfTen (-place).toNat =
    ((1 <<< unitExponent) * powerOfTen place.toNat : Nat) := by
  have hten : (10 : ℚ) ^ place = powerOfTen place.toNat / powerOfTen (-place).toNat := by
    have hvalue := value_eq_div ⟨1, place⟩
    simpa [value, numerator, denominator] using hvalue
  have hpos : (0 : ℚ) < powerOfTen (-place).toNat := by exact_mod_cast powerOfTen_pos _
  rw [gridStep, hten, Nat.shiftLeft_eq, Nat.one_mul]
  push_cast
  field_simp

/-- The magnitude of a rank lies between two successive grid points. -/
theorem scaled_spec (rank : Nat) (place : Int) :
    let point := (scaled (units rank) (1 <<< unitExponent) place).1 /
      (scaled (units rank) (1 <<< unitExponent) place).2
    point * gridStep place ≤ units rank ∧
      units rank < (point + 1 : ℚ) * gridStep place := by
  have hpos : (0 : ℚ) < powerOfTen (-place).toNat := by exact_mod_cast powerOfTen_pos _
  have hpos' : 0 < (1 <<< unitExponent) * powerOfTen place.toNat :=
    Nat.mul_pos (by decide) (powerOfTen_pos _)
  have hstep := gridStep_mul place
  intro point
  have hlow : point * ((1 <<< unitExponent) * powerOfTen place.toNat) ≤
      units rank * powerOfTen (-place).toNat := Nat.div_mul_le_self _ _
  have hhigh : units rank * powerOfTen (-place).toNat <
      (1 <<< unitExponent) * powerOfTen place.toNat * (point + 1) :=
    Nat.lt_mul_div_succ _ hpos'
  constructor
  · apply le_of_mul_le_mul_right _ hpos
    rw [mul_assoc, hstep]
    exact_mod_cast hlow
  · apply lt_of_mul_lt_mul_right _ hpos.le
    rw [mul_assoc, hstep, mul_comm (point + 1 : ℚ)]
    exact_mod_cast hhigh

/-- Of the two grid points around a magnitude one reads back, if the grid is finer than the
spacing before the magnitude. -/
theorem exists_onGrid? (tie : TieBreak) {low : Nat} {place : Int}
    (hfinite : low + 1 < finiteCount)
    (hfine : gridStep place < units (low + 1) - units low) :
    ∃ d, onGrid? tie (low + 1) place = some d := by
  obtain ⟨hbelow, habove⟩ := scaled_spec (low + 1) place
  have hpos := gridStep_pos place
  have hreads : ∀ point : Nat,
      2 * |point * gridStep place - units (low + 1)| ≤ gridStep place →
        readsBack (low + 1) ⟨point, place⟩ = true := by
    intro point hnear
    rw [readsBack, beq_iff_eq]
    apply rank_of_two_mul_abs_sub_lt hfinite
    rw [value_mul_eq]
    exact hnear.trans_lt hfine
  simp only [onGrid?]
  generalize (scaled (units (low + 1)) (1 <<< unitExponent) place).1 /
      (scaled (units (low + 1)) (1 <<< unitExponent) place).2 = point at *
  rcases le_total (2 * (units (low + 1) - point * gridStep place)) (gridStep place)
    with hnear | hnear
  · rw [hreads point (by rw [abs_sub_comm, abs_of_nonneg (by linarith)]; exact hnear)]
    split <;> simp_all
  · have hnext : 2 * |((point + 1 : Nat) : ℚ) * gridStep place - units (low + 1)| ≤
        gridStep place := by
      push_cast
      rw [abs_of_nonneg (by linarith)]
      linarith
    rw [hreads (point + 1) hnext]
    split <;> simp_all

/-- What is written on a grid is at most one grid point above the magnitude. -/
theorem le_of_onGrid? {tie : TieBreak} {rank : Nat} {place : Int} {d : Decimal}
    (hsome : onGrid? tie rank place = some d) :
    d.exponent = place ∧
      d.coefficient * gridStep place ≤ units rank + gridStep place := by
  obtain ⟨hbelow, -⟩ := scaled_spec rank place
  have hpos := gridStep_pos place
  simp only [onGrid?] at hsome
  have hpoint := nearerPoint_eq_or tie
    ((scaled (units rank) (1 <<< unitExponent) place).1 /
      (scaled (units rank) (1 <<< unitExponent) place).2)
    (scaled (units rank) (1 <<< unitExponent) place).1
    (scaled (units rank) (1 <<< unitExponent) place).2
  generalize (scaled (units rank) (1 <<< unitExponent) place).1 /
      (scaled (units rank) (1 <<< unitExponent) place).2 = point at *
  have hneighbour : ∀ coefficient : Nat, coefficient = point ∨ coefficient = point + 1 →
      coefficient * gridStep place ≤ units rank + gridStep place := by
    rintro coefficient (rfl | rfl)
    · linarith
    · push_cast
      linarith
  split at hsome
  · cases hsome
    exact ⟨rfl, hneighbour _ hpoint⟩
  · cases hsome
    exact ⟨rfl, hneighbour _ (Or.inl rfl)⟩
  · cases hsome
    exact ⟨rfl, hneighbour _ (Or.inr rfl)⟩
  · cases hsome

/-! ## The search -/

/-- The search ends at the latest on a grid on which a decimal is found. -/
theorem exists_firstOnGrids? {tie : TieBreak} {rank steps grids : Nat} {place : Int}
    (hsteps : steps < grids) (hfound : ∃ d, onGrid? tie rank (place - steps) = some d) :
    ∃ d, firstOnGrids? tie rank place grids = some d ∧ place - steps ≤ d.exponent ∧
      d.coefficient * gridStep d.exponent ≤ units rank + gridStep d.exponent := by
  induction grids generalizing steps place with
  | zero => exact absurd hsteps (Nat.not_lt_zero steps)
  | succ grids ih =>
      rw [firstOnGrids?]
      cases hgrid : onGrid? tie rank place with
      | some d =>
          obtain ⟨hexponent, hle⟩ := le_of_onGrid? hgrid
          rw [← hexponent] at hle
          exact ⟨d, rfl, by omega, hle⟩
      | none =>
          obtain ⟨later, rfl⟩ : ∃ later, steps = later + 1 := by
            apply Nat.exists_eq_succ_of_ne_zero
            rintro rfl
            obtain ⟨d, hd⟩ := hfound
            rw [Nat.cast_zero, sub_zero, hgrid] at hd
            cases hd
          have hplace : place - ((later + 1 : Nat) : Int) = place - 1 - later := by omega
          rw [hplace] at hfound ⊢
          exact ih (by omega) hfound

theorem gridStep_mono {place larger : Int} (hle : place ≤ larger) :
    gridStep place ≤ gridStep larger :=
  mul_le_mul_of_nonneg_right (zpow_le_zpow_right₀ (by norm_num) hle) (by positivity)

theorem zpow_eq_powerOfTen (places : Nat) : (10 : ℚ) ^ (places : Int) = powerOfTen places := by
  rw [zpow_natCast, powerOfTen_eq, Nat.cast_pow]
  rfl

/-- The grid at `10 ^ -324` is finer than one unit. -/
theorem gridStep_tiny : gridStep (-324) ≤ 1 / 2 := by
  have htiny : (2 * 2 ^ unitExponent : ℚ) ≤ powerOfTen 324 := by
    exact_mod_cast two_units_le_powerOfTen_324
  have hpow : (10 : ℚ) ^ (324 : Int) = powerOfTen 324 := zpow_eq_powerOfTen 324
  rw [gridStep, zpow_neg, hpow, inv_mul_le_iff₀ (lt_of_lt_of_le (by positivity) htiny)]
  linarith

/-- A magnitude starts at its leading place. -/
theorem gridStep_leadingPlace (low : Nat) :
    let leading := leadingPlace (units (low + 1)) (1 <<< unitExponent)
    gridStep leading ≤ units (low + 1) ∧ units (low + 1) < gridStep (leading + 1) := by
  intro leading
  have hpos : 0 < units (low + 1) := Nat.zero_lt_of_lt (units_lt_succ low)
  obtain ⟨hlow, hhigh⟩ := leadingPlace_spec hpos (show 0 < 1 <<< unitExponent by decide)
  have hunits : ((1 <<< unitExponent : Nat) : ℚ) = 2 ^ unitExponent := by
    rw [Nat.shiftLeft_eq, Nat.one_mul]
    push_cast
    rfl
  rw [hunits] at hlow hhigh
  constructor
  · rwa [le_div_iff₀ (by positivity)] at hlow
  · rwa [div_lt_iff₀ (by positivity)] at hhigh

theorem gridStep_add (place : Int) (more : Nat) :
    gridStep (place + more) = 10 ^ more * gridStep place := by
  rw [gridStep, gridStep, zpow_add₀ (by norm_num), zpow_natCast]
  ring

/-- Sixteen places behind the leading digit, and below `10 ^ -323`, the grid is finer than the
spacing before a magnitude. -/
theorem gridStep_lt_spacing (low : Nat) {place : Int}
    (hplace : place + (16 : Nat) ≤ leadingPlace (units (low + 1)) (1 <<< unitExponent) ∨
      place ≤ -324) :
    gridStep place < units (low + 1) - units low := by
  rcases hplace with hplace | hplace
  · have hspacing : (units (low + 1) + 2 ^ 53 * units low : ℚ) ≤ 2 ^ 53 * units (low + 1) := by
      exact_mod_cast units_le_mul_spacing low
    have hstep := (gridStep_mono hplace).trans (gridStep_leadingPlace low).1
    have hpos := gridStep_pos place
    rw [gridStep_add] at hstep
    linarith
  · have hone : (units low : ℚ) + 1 ≤ units (low + 1) := by exact_mod_cast units_lt_succ low
    have hstep := (gridStep_mono hplace).trans gridStep_tiny
    linarith

/-- The leading digit of a magnitude stands at `10 ^ -324` at least. -/
theorem le_leadingPlace (low : Nat) :
    -324 ≤ leadingPlace (units (low + 1)) (1 <<< unitExponent) := by
  obtain ⟨-, hhigh⟩ := gridStep_leadingPlace low
  by_contra hsmall
  have hone : (1 : ℚ) ≤ units (low + 1) := by
    exact_mod_cast Nat.zero_lt_of_lt (units_lt_succ low)
  have htiny := (gridStep_mono (Int.add_one_le_of_lt (not_le.mp hsmall))).trans gridStep_tiny
  linarith

theorem normalize_bounds (d : Decimal) :
    d.normalize.coefficient ≤ d.coefficient ∧ d.exponent ≤ d.normalize.exponent := by
  induction d using normalize.induct with
  | case1 d hzero ih =>
      rw [normalize, dif_pos hzero]
      exact ⟨ih.1.trans (Nat.div_le_self _ _), (by omega : d.exponent ≤ d.exponent + 1).trans ih.2⟩
  | case2 d hzero =>
      rw [normalize, dif_neg hzero]
      exact ⟨le_rfl, le_rfl⟩

/-- The search ends after at most seventeen digits. -/
theorem exists_firstOnGrids?_seventeen (tie : TieBreak) {low : Nat}
    (hfinite : low + 1 < finiteCount) :
    ∃ d, firstOnGrids? tie (low + 1)
        (leadingPlace (units (low + 1)) (1 <<< unitExponent)) 17 = some d ∧
      d.coefficient ≤ 10 ^ 17 ∧ -324 ≤ d.exponent := by
  have hleading := le_leadingPlace low
  obtain ⟨-, hhigh⟩ := gridStep_leadingPlace low
  have hfine := fun place => @gridStep_lt_spacing low place
  generalize leadingPlace (units (low + 1)) (1 <<< unitExponent) = leading at *
  obtain ⟨steps, hsteps, hplace, htiny⟩ : ∃ steps : Nat, steps < 17 ∧
      (leading - steps + 16 ≤ leading ∨ leading - steps ≤ -324) ∧ -324 ≤ leading - steps := by
    by_cases hlow : leading < -308
    · exact ⟨(leading + 324).toNat, by omega, by omega, by omega⟩
    · exact ⟨16, by omega, by omega, by omega⟩
  obtain ⟨d, hfirst, hexponent, hle⟩ :=
    exists_firstOnGrids? hsteps (exists_onGrid? tie hfinite (hfine _ hplace))
  refine ⟨d, hfirst, ?_, by omega⟩
  have hseventeen := gridStep_mono (show leading + 1 ≤ d.exponent + (17 : Nat) by omega)
  rw [gridStep_add] at hseventeen
  have hpos := gridStep_pos d.exponent
  have hlt : (d.coefficient : ℚ) * gridStep d.exponent <
      ((10 ^ 17 + 1 : Nat) : ℚ) * gridStep d.exponent := by
    push_cast
    linarith
  have hcoefficient := lt_of_mul_lt_mul_right hlt hpos.le
  exact Nat.le_of_lt_succ (by exact_mod_cast hcoefficient)

theorem coefficient_pos_of_rank_pos {d : Decimal} (hpos : 0 < d.rank) : 0 < d.coefficient := by
  rw [Nat.pos_iff_ne_zero]
  intro hzero
  rw [rank, isHuge, isTiny, hzero] at hpos
  simp only [bne_self_eq_false, Bool.false_and, Bool.false_eq_true, if_false, beq_self_eq_true,
    Bool.true_or, if_true] at hpos
  exact lt_irrefl _ hpos

/-- The shortest decimal reads back, has at most seventeen digits, and its last digit stands
between `10 ^ -324` and `10 ^ 308`. -/
theorem shortest_bounds (tie : TieBreak) {rank : Nat} (hpos : 0 < rank)
    (hfinite : rank < finiteCount) :
    (shortest tie rank).rank = rank ∧ 0 < (shortest tie rank).coefficient ∧
      (shortest tie rank).coefficient ≤ 10 ^ 17 ∧ -324 ≤ (shortest tie rank).exponent ∧
      (shortest tie rank).exponent ≤ 308 := by
  have hrank : (shortest tie rank).rank = rank :=
    rank_of_toBinary64 hfinite (toBinary64_shortest tie false rank)
  have hcoefficient : 0 < (shortest tie rank).coefficient :=
    coefficient_pos_of_rank_pos (by rwa [hrank])
  have hexponent : (shortest tie rank).exponent ≤ 308 := by
    by_contra hlarge
    have hhuge : (shortest tie rank).isHuge = true := by
      rw [isHuge, Bool.and_eq_true, bne_iff_ne, decide_eq_true_eq]
      exact ⟨hcoefficient.ne', by omega⟩
    rw [Decimal.rank, if_pos hhuge] at hrank
    exact hfinite.ne hrank.symm
  obtain ⟨low, rfl⟩ := Nat.exists_eq_succ_of_ne_zero hpos.ne'
  obtain ⟨d, hfirst, hseventeen, htiny⟩ := exists_firstOnGrids?_seventeen tie hfinite
  obtain ⟨hle, hge⟩ := normalize_bounds d
  have hshortest : shortest tie (low + 1) = d.normalize := by
    rw [shortest, hfirst, Option.getD_some]
  refine ⟨hrank, hcoefficient, ?_, ?_, hexponent⟩
  · rw [Nat.succ_eq_add_one, hshortest]
    exact hle.trans hseventeen
  · rw [Nat.succ_eq_add_one, hshortest]
    exact htiny.trans hge

end Keypad.Decimal
