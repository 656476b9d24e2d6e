import Keypad.Binary64.Rounding
import Mathlib.Algebra.Order.Ring.Nat

/-!
# Where rounding runs out of ranks

Below half a unit the nearest rank is zero, and for every quotient of more than 2099 bits it is
past the finite ranks.
-/

namespace Keypad.Binary64

/-! ## The nearest rank -/

theorem divideTiesEven_of_two_mul_lt {numerator denominator : Nat}
    (hsmall : 2 * numerator < denominator) : divideTiesEven numerator denominator = 0 := by
  have hlt : numerator < denominator := by omega
  simp [divideTiesEven, Nat.div_eq_of_lt hlt, Nat.mod_eq_of_lt hlt, hsmall]

theorem nearestRank_of_two_mul_lt {numerator denominator : Nat}
    (hsmall : 2 * numerator < denominator) : nearestRank numerator denominator = 0 := by
  have hquotient : numerator / denominator = 0 := Nat.div_eq_of_lt (by omega)
  have hshift : (numerator / denominator).log2 - 52 = 0 := by rw [hquotient]; rfl
  simp only [nearestRank, hshift, Nat.zero_mul, Nat.shiftLeft_zero, Nat.zero_add]
  exact divideTiesEven_of_two_mul_lt hsmall

theorem nearestRank_zero (denominator : Nat) : nearestRank 0 denominator = 0 := by
  by_cases hpos : 0 < denominator
  · exact nearestRank_of_two_mul_lt (by omega)
  · have hzero : denominator = 0 := by omega
    subst hzero
    decide

theorem finiteCount_le_nearestRank {numerator denominator bits : Nat}
    (hlarge : 2 ^ bits ≤ numerator / denominator) (hbits : 2099 ≤ bits) :
    finiteCount ≤ nearestRank numerator denominator := by
  have hne : numerator / denominator ≠ 0 := ((Nat.two_pow_pos bits).trans_le hlarge).ne'
  have hlog : bits ≤ (numerator / denominator).log2 := (Nat.le_log2 hne).mpr hlarge
  have hshift : 2047 ≤ (numerator / denominator).log2 - 52 := by omega
  exact (Nat.mul_le_mul_right binade hshift).trans (Nat.le_add_right _ _)

/-! ## Units -/

theorem units_of_lt {rank : Nat} (hlt : rank < binade) : units rank = rank := by
  rw [units, if_pos hlt]

theorem units_of_le {rank : Nat} (hle : binade ≤ rank) :
    units rank = (binade + rank % binade) * 2 ^ (rank / binade - 1) := by
  rw [units, if_neg (Nat.not_lt.mpr hle), Nat.shiftLeft_eq]

theorem binade_eq : binade = 2 ^ 52 := by
  rfl

end Keypad.Binary64
