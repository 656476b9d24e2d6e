import Keypad.Decimal.Layout
import Keypad.Proofs.Decimal.Shortest

/-!
# Significant digits

A positive decimal has just one form without zeros at the end of its coefficient.  So the number of
digits of this form belongs to the value alone: it is the least number of digits in which the value
can be written at all.
-/

namespace Keypad.Decimal

/-- Whether the coefficient is positive and has no zeros at its end. -/
def IsNormal (d : Decimal) : Prop := d.coefficient % 10 ≠ 0

/-- How many digits a decimal has, zeros before and behind the others aside. -/
def significantDigits (d : Decimal) : Nat := d.normalize.digits.length

/-! ## Normal forms -/

theorem IsNormal.coefficient_pos {d : Decimal} (hnormal : d.IsNormal) : 0 < d.coefficient := by
  rw [Nat.pos_iff_ne_zero]
  intro hzero
  rw [IsNormal, hzero] at hnormal
  exact hnormal rfl

theorem value_pos {d : Decimal} (hpos : 0 < d.coefficient) : 0 < d.value := by
  rw [value]
  positivity

theorem value_one (exponent : Int) : value ⟨1, exponent⟩ = 10 ^ exponent := by
  rw [value, Nat.cast_one, one_mul]

theorem coefficient_pos_of_value_pos {d : Decimal} (hpos : 0 < d.value) : 0 < d.coefficient := by
  rw [Nat.pos_iff_ne_zero]
  intro hzero
  rw [value, hzero, Nat.cast_zero, zero_mul] at hpos
  exact lt_irrefl _ hpos

theorem isNormal_normalize {d : Decimal} (hpos : 0 < d.coefficient) : d.normalize.IsNormal := by
  induction d using normalize.induct with
  | case1 d hzero ih =>
      rw [normalize, dif_pos hzero]
      exact ih (Nat.div_pos (Nat.le_of_dvd hpos (Nat.dvd_of_mod_eq_zero hzero.2)) (by decide))
  | case2 d hzero =>
      rw [normalize, dif_neg hzero]
      intro hmod
      exact hzero ⟨hpos.ne', hmod⟩

theorem value_mul_pow (coefficient places : Nat) (exponent : Int) :
    value ⟨coefficient * 10 ^ places, exponent⟩ = value ⟨coefficient, exponent + places⟩ := by
  rw [value, value, zpow_add₀ (by norm_num), zpow_natCast]
  push_cast
  ring

/-- Of two decimals of one value, the one whose last digit stands further behind has zeros there. -/
theorem coefficient_eq_of_value_eq {d d' : Decimal} (hvalue : d.value = d'.value)
    (hle : d.exponent ≤ d'.exponent) :
    d.coefficient = d'.coefficient * 10 ^ (d'.exponent - d.exponent).toNat := by
  obtain ⟨places, hplaces⟩ := Int.eq_ofNat_of_zero_le (sub_nonneg.mpr hle)
  have hexponent : d'.exponent = d.exponent + places := by omega
  have hshifted : d'.value = value ⟨d'.coefficient * 10 ^ places, d.exponent⟩ := by
    rw [value_mul_pow, ← hexponent]
  rw [hshifted, value, value] at hvalue
  have hcoefficient := mul_right_cancel₀ (zpow_ne_zero _ (by norm_num)) hvalue
  rw [hplaces, Int.toNat_natCast]
  exact_mod_cast hcoefficient

theorem exponent_le_of_isNormal {d d' : Decimal} (hnormal : d.IsNormal)
    (hvalue : d.value = d'.value) : d'.exponent ≤ d.exponent := by
  by_contra hlt
  apply hnormal
  obtain ⟨places, hplaces⟩ := Nat.exists_eq_succ_of_ne_zero
    (show (d'.exponent - d.exponent).toNat ≠ 0 by omega)
  rw [coefficient_eq_of_value_eq hvalue (by omega), hplaces, Nat.pow_succ, ← Nat.mul_assoc]
  exact Nat.mul_mod_left _ 10

/-- A value has one normal form. -/
theorem eq_of_value_eq {d d' : Decimal} (hnormal : d.IsNormal) (hnormal' : d'.IsNormal)
    (hvalue : d.value = d'.value) : d = d' := by
  have hexponent : d.exponent = d'.exponent :=
    le_antisymm (exponent_le_of_isNormal hnormal' hvalue.symm)
      (exponent_le_of_isNormal hnormal hvalue)
  have hcoefficient := coefficient_eq_of_value_eq hvalue hexponent.le
  rw [hexponent, sub_self, Int.toNat_zero, Nat.pow_zero, Nat.mul_one] at hcoefficient
  obtain ⟨coefficient, exponent⟩ := d
  obtain ⟨coefficient', exponent'⟩ := d'
  rw [Decimal.mk.injEq]
  exact ⟨hcoefficient, hexponent⟩

theorem normalize_congr {d d' : Decimal} (hpos : 0 < d.coefficient)
    (hvalue : d.value = d'.value) : d.normalize = d'.normalize := by
  have hpos' : 0 < d'.coefficient := coefficient_pos_of_value_pos (hvalue ▸ value_pos hpos)
  apply eq_of_value_eq (isNormal_normalize hpos) (isNormal_normalize hpos')
  rw [value_normalize, value_normalize, hvalue]

/-! ## Significant digits -/

theorem significantDigits_congr {d d' : Decimal} (hpos : 0 < d.coefficient)
    (hvalue : d.value = d'.value) : d.significantDigits = d'.significantDigits := by
  rw [significantDigits, normalize_congr hpos hvalue, significantDigits]

theorem significantDigits_pos (d : Decimal) : 0 < d.significantDigits :=
  Nat.length_toDigits_pos

theorem length_digits_le_iff {d : Decimal} {count : Nat} (hcount : 0 < count) :
    d.digits.length ≤ count ↔ d.coefficient < 10 ^ count :=
  Nat.length_toDigits_le_iff (by decide) hcount

/-- The significant digits of a positive decimal are those that its value needs. -/
theorem significantDigits_le_iff {d : Decimal} (hpos : 0 < d.coefficient) {count : Nat}
    (hcount : 0 < count) :
    d.significantDigits ≤ count ↔
      ∃ d' : Decimal, d'.value = d.value ∧ d'.coefficient < 10 ^ count := by
  constructor
  · intro hle
    exact ⟨d.normalize, value_normalize d, (length_digits_le_iff hcount).mp hle⟩
  · rintro ⟨d', hvalue, hlt⟩
    rw [significantDigits_congr hpos hvalue.symm, significantDigits, length_digits_le_iff hcount]
    exact (normalize_bounds d').1.trans_lt hlt

end Keypad.Decimal
