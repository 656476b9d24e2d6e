import Keypad.Decimal.Shortest
import Keypad.Proofs.Binary64.Nearest
import Mathlib.Algebra.Order.Field.Power
import Mathlib.Algebra.Order.Field.Rat
import Mathlib.Tactic.FieldSimp

/-!
# The value of a decimal and the number nearest to it

The binary number nearest to a decimal depends on the decimal's exact value only: the shortcuts
for huge and tiny decimals agree with rounding the exact quotient.  Every decimal that the search
for the shortest one may return is therefore read back as the magnitude that it was found for.
-/

namespace Keypad.Decimal

/-! ## The exact value -/

/-- The exact value of a decimal. -/
def value (d : Decimal) : ℚ := d.coefficient * (10 : ℚ) ^ d.exponent

theorem powerOfTen_eq (exponent : Nat) : powerOfTen exponent = 10 ^ exponent := rfl

theorem powerOfTen_pos (exponent : Nat) : 0 < powerOfTen exponent :=
  Nat.pow_pos (by decide : 0 < 10)

theorem powerOfTen_add (exponent more : Nat) :
    powerOfTen (exponent + more) = powerOfTen exponent * powerOfTen more :=
  Nat.pow_add 10 exponent more

theorem powerOfTen_le {exponent larger : Nat} (hle : exponent ≤ larger) :
    powerOfTen exponent ≤ powerOfTen larger :=
  Nat.pow_le_pow_right (by decide) hle

theorem two_pow_le_powerOfTen_309 : 2 ^ 1025 ≤ powerOfTen 309 := by decide +kernel

theorem two_units_le_powerOfTen_324 : 2 * 2 ^ Binary64.unitExponent ≤ powerOfTen 324 := by
  decide +kernel

theorem denominator_pos (d : Decimal) : 0 < d.denominator := powerOfTen_pos _

theorem value_eq_div (d : Decimal) : d.value = d.numerator / d.denominator := by
  rw [value, numerator, denominator, powerOfTen_eq, powerOfTen_eq]
  rcases d.exponent.eq_nat_or_neg with ⟨places, hplaces | hplaces⟩
  · simp [hplaces]
  · simp [hplaces, div_eq_mul_inv]

/-! ## The nearest number -/

theorem finiteCount_le_of_isHuge {d : Decimal} (hhuge : d.isHuge = true) :
    Binary64.finiteCount ≤
      Binary64.nearestRank (d.numerator <<< Binary64.unitExponent) d.denominator := by
  simp only [isHuge, Bool.and_eq_true, bne_iff_ne, ne_eq, decide_eq_true_eq] at hhuge
  obtain ⟨hcoefficient, hexponent⟩ := hhuge
  have hdenominator : d.denominator = 1 := by
    rw [denominator, Int.toNat_of_nonpos (by omega), powerOfTen_eq, Nat.pow_zero]
  have hpower : powerOfTen 309 ≤ d.numerator :=
    (powerOfTen_le (by omega)).trans
      (Nat.le_mul_of_pos_left _ (Nat.pos_of_ne_zero hcoefficient))
  have hunits : ∀ bits, 2 ^ bits ≤ d.numerator →
      2 ^ (bits + Binary64.unitExponent) ≤
        d.numerator <<< Binary64.unitExponent / d.denominator := by
    intro bits hbits
    rw [hdenominator, Nat.div_one, Nat.shiftLeft_eq, Nat.pow_add]
    exact Nat.mul_le_mul_right _ hbits
  exact Binary64.finiteCount_le_nearestRank
    (hunits 1025 (two_pow_le_powerOfTen_309.trans hpower)) (by decide)

theorem nearestRank_of_isTiny {d : Decimal} (htiny : d.isTiny = true) :
    Binary64.nearestRank (d.numerator <<< Binary64.unitExponent) d.denominator = 0 := by
  apply Binary64.nearestRank_of_two_mul_lt
  rw [Nat.shiftLeft_eq]
  by_cases hcoefficient : d.coefficient = 0
  · rw [numerator, hcoefficient]
    simpa using d.denominator_pos
  · simp only [isTiny, hcoefficient, beq_iff_eq, Bool.or_eq_true, decide_eq_true_eq,
      false_or] at htiny
    have hnumerator : d.numerator = d.coefficient := by
      rw [numerator, Int.toNat_of_nonpos (by omega), powerOfTen_eq, Nat.pow_zero, Nat.mul_one]
    have hcoefficient_lt : d.coefficient < powerOfTen (d.coefficient.log2 + 1) :=
      Nat.lt_log2_self.trans_le (Nat.pow_le_pow_left (by decide) _)
    rw [hnumerator]
    calc 2 * (d.coefficient * 2 ^ Binary64.unitExponent)
        = d.coefficient * (2 * 2 ^ Binary64.unitExponent) := by rw [Nat.mul_left_comm]
      _ < powerOfTen (d.coefficient.log2 + 1) * powerOfTen 324 :=
          Nat.mul_lt_mul_of_lt_of_le hcoefficient_lt two_units_le_powerOfTen_324
            (powerOfTen_pos 324)
      _ = powerOfTen (d.coefficient.log2 + 1 + 324) := (powerOfTen_add _ _).symm
      _ ≤ d.denominator := powerOfTen_le (by omega)

/-- The shortcuts for huge and tiny decimals agree with rounding the exact quotient. -/
theorem toBinary64_eq_round (negative : Bool) (d : Decimal) :
    d.toBinary64 negative =
      .round negative (d.numerator <<< Binary64.unitExponent) d.denominator := by
  rw [toBinary64, rank, Binary64.round]
  cases hhuge : d.isHuge with
  | true =>
      rw [if_pos rfl, Binary64.ofRank_of_le _ le_rfl,
        Binary64.ofRank_of_le _ (finiteCount_le_of_isHuge hhuge)]
  | false =>
      cases htiny : d.isTiny with
      | true => simp [nearestRank_of_isTiny htiny]
      | false => simp

/-- The number of a decimal is the nearest to its exact value. -/
theorem isNearest_toBinary64 (negative : Bool) (d : Decimal) :
    Binary64.IsNearest negative d.value (d.toBinary64 negative) := by
  have hunits : d.value * 2 ^ Binary64.unitExponent =
      ((d.numerator <<< Binary64.unitExponent : Nat) : ℚ) / d.denominator := by
    rw [value_eq_div, Nat.shiftLeft_eq, Nat.cast_mul, Nat.cast_pow, div_mul_eq_mul_div]
    rfl
  rw [toBinary64_eq_round, Binary64.round]
  apply Binary64.isNearest_ofRank
  rw [hunits]
  exact Binary64.isNearestRank_nearestRank _ d.denominator_pos

/-- Decimals of one value are read as one binary number. -/
theorem toBinary64_congr (negative : Bool) {d d' : Decimal} (hvalue : d.value = d'.value) :
    d.toBinary64 negative = d'.toBinary64 negative := by
  have hnearest := d.isNearest_toBinary64 negative
  rw [hvalue] at hnearest
  exact Binary64.isNearest_unique hnearest (d'.isNearest_toBinary64 negative)

/-- A decimal with the value of a magnitude is read as that magnitude. -/
theorem toBinary64_of_value (negative : Bool) {d : Decimal} {rank : Nat}
    (hvalue : d.value = Binary64.absValue rank) :
    d.toBinary64 negative = .ofRank negative rank := by
  have hnearest := d.isNearest_toBinary64 negative
  rw [hvalue] at hnearest
  exact Binary64.isNearest_unique hnearest (Binary64.isNearest_absValue negative rank)

/-! ## The shortest decimal -/

theorem value_normalize (d : Decimal) : d.normalize.value = d.value := by
  induction d using normalize.induct with
  | case1 d hzero ih =>
      rw [normalize, dif_pos hzero, ih, value, value]
      have hten : (d.coefficient : ℚ) = (d.coefficient / 10 : ℕ) * 10 := by
        exact_mod_cast (Nat.div_mul_cancel (Nat.dvd_of_mod_eq_zero hzero.2)).symm
      rw [hten, zpow_add_one₀ (by norm_num)]
      ring
  | case2 d hzero => rw [normalize, dif_neg hzero]

theorem nearerPoint_eq_or (tie : TieBreak) (low numerator denominator : Nat) :
    nearerPoint tie low numerator denominator = low ∨
      nearerPoint tie low numerator denominator = low + 1 := by
  simp only [nearerPoint]
  split
  · exact Or.inl rfl
  · split
    · exact Or.inr rfl
    · cases tie with
      | up => exact Or.inr rfl
      | toEven =>
          rcases Nat.mod_two_eq_zero_or_one low with heven | hodd
          · exact Or.inl (by simp [heven])
          · exact Or.inr (by simp [hodd])

theorem rank_of_onGrid? {tie : TieBreak} {rank : Nat} {place : Int} {d : Decimal}
    (hsome : onGrid? tie rank place = some d) : d.rank = rank := by
  simp only [onGrid?] at hsome
  split at hsome
  · next hlow hhigh =>
      cases hsome
      rcases nearerPoint_eq_or tie _ _ _ with hpoint | hpoint <;> rw [hpoint]
      · exact beq_iff_eq.mp hlow
      · exact beq_iff_eq.mp hhigh
  · next hlow _ =>
      cases hsome
      exact beq_iff_eq.mp hlow
  · next hhigh =>
      cases hsome
      exact beq_iff_eq.mp hhigh
  · cases hsome

theorem rank_of_firstOnGrids? {tie : TieBreak} {rank grids : Nat} {place : Int} {d : Decimal}
    (hsome : firstOnGrids? tie rank place grids = some d) : d.rank = rank := by
  induction grids generalizing place with
  | zero => cases hsome
  | succ grids ih =>
      rw [firstOnGrids?] at hsome
      split at hsome
      · next hgrid =>
          cases hsome
          exact rank_of_onGrid? hgrid
      · exact ih hsome

/-- A multiple of a power of one half is a decimal with as many places. -/
theorem value_of_halves (count places : Nat) :
    value ⟨count * Nat.pow 5 places, -places⟩ = count / 2 ^ places := by
  have hten : (10 : ℚ) ^ places = 5 ^ places * 2 ^ places := by
    rw [← mul_pow]
    norm_num
  have hfive : ((Nat.pow 5 places : Nat) : ℚ) = 5 ^ places := Nat.cast_pow 5 places
  rw [value, zpow_neg, zpow_natCast, hten, Nat.cast_mul, hfive]
  field_simp

theorem value_exact (rank : Nat) : (exact rank).value = Binary64.absValue rank := by
  rw [exact, value_of_halves, Binary64.absValue]

/-- The exact decimal value of a magnitude is read back as that magnitude. -/
theorem toBinary64_exact (negative : Bool) (rank : Nat) :
    (exact rank).toBinary64 negative = .ofRank negative rank :=
  toBinary64_of_value negative (value_exact rank)

/-- The shortest decimal of a magnitude is read back as that magnitude. -/
theorem toBinary64_shortest (tie : TieBreak) (negative : Bool) (rank : Nat) :
    (shortest tie rank).toBinary64 negative = .ofRank negative rank := by
  rw [shortest, toBinary64_congr negative (value_normalize _)]
  cases hfirst : firstOnGrids? tie rank
      (leadingPlace (Binary64.units rank) (1 <<< Binary64.unitExponent)) 17 with
  | none => exact toBinary64_exact negative rank
  | some d => rw [Option.getD_some, toBinary64, rank_of_firstOnGrids? hfirst]

end Keypad.Decimal
