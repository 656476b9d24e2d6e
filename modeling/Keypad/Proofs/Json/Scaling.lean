import Keypad.Json.Number
import Keypad.Proofs.Decimal.Shortest

/-!
# How far scaling goes

Rounding the digits and rounding the power of ten are each off by less than one part in `2 ^ 53`,
so their product or quotient is off by at most one part in `2 ^ 52` before it is rounded itself.
Below `10 ^ -308` there is one more rounding in between; it is off by less where the rounding of
the digits is off by most.
-/

namespace Keypad.Json

open Binary64 (ofRank absValue units unitExponent finiteCount IsNearestRank)

/-! ## Digits and powers of ten -/

theorem ten_pow_308_lt_overflowFrom : (10 : ℚ) ^ 308 < Binary64.overflowFrom := by
  have hlt : 10 ^ 308 + 2 ^ 970 < 2 ^ 1024 := by decide +kernel
  rw [Binary64.overflowFrom, lt_sub_iff_add_lt]
  exact_mod_cast hlt

/-- A decimal of at least one rounds to a number that is off by less than one part in `2 ^ 53`. -/
theorem exists_rank_of_decimal {d : Decimal} (hlow : 1 ≤ d.value) (hhigh : d.value ≤ 10 ^ 308)
    (hhuge : d.exponent ≤ 308) :
    ∃ rank, d.toBinary64 false = ofRank false rank ∧ 0 < rank ∧ rank < finiteCount ∧
      IsNearestRank (d.value * 2 ^ unitExponent) rank ∧
      (2 ^ 53 + 1) * |d.value - absValue rank| ≤ d.value := by
  have hnearest : IsNearestRank (d.value * 2 ^ unitExponent) d.rank := by
    apply Decimal.isNearestRank_rank
    rw [Decimal.isHuge, decide_eq_false (by omega), Bool.and_false]
  have herror := Binary64.mul_abs_sub_absValue_le hnearest (by
    have hunits : (2 : ℚ) ^ 52 ≤ 2 ^ unitExponent :=
      pow_le_pow_right₀ (by norm_num) (by decide)
    exact hunits.trans (le_mul_of_one_le_left (by positivity) hlow))
  refine ⟨d.rank, rfl, ?_, ?_, hnearest, herror⟩
  · rw [Nat.pos_iff_ne_zero]
    intro hzero
    rw [hzero, Binary64.absValue_zero, sub_zero, abs_of_nonneg (by linarith)] at herror
    linarith
  · rw [hnearest.lt_finiteCount_iff]
    exact mul_lt_mul_of_pos_right (hhigh.trans_lt ten_pow_308_lt_overflowFrom) (by positivity)

/-- Powers of ten up to `10 ^ 22` are exact. -/
theorem absValue_rank_power {exponent : Nat} (hle : exponent ≤ 22) :
    absValue (Decimal.rank ⟨1, exponent⟩) = 10 ^ exponent := by
  have hunits : ∀ exponent < 23,
      units (Decimal.rank ⟨1, (exponent : Nat)⟩) = 10 ^ exponent * 2 ^ unitExponent := by
    decide +kernel
  rw [absValue, hunits exponent (by omega)]
  push_cast
  rw [mul_div_cancel_right₀ _ (by positivity)]

/-! ## One scaling -/

/-- A number scaled in one step is the product or the quotient of it and a power of ten that is
off by less than one part in `2 ^ 53`, rounded. -/
theorem exists_scaleByTen {x : Nat} (hx : x < finiteCount) {exponent : Int}
    (hexponent : exponent.natAbs ≤ 308) :
    ∃ power rank,
      (2 ^ 53 + 1) * |10 ^ exponent.natAbs - absValue power| ≤ 10 ^ exponent.natAbs ∧
      (exponent.natAbs ≤ 22 → absValue power = 10 ^ exponent.natAbs) ∧
      IsNearestRank ((if 0 ≤ exponent then absValue x * absValue power
        else absValue x / absValue power) * 2 ^ unitExponent) rank ∧
      (rank < finiteCount →
        scaleByTen (ofRank false x) exponent = some (ofRank false rank)) := by
  have hvalue : Decimal.value ⟨1, exponent.natAbs⟩ = 10 ^ exponent.natAbs := by
    rw [Decimal.value, Nat.cast_one, one_mul, zpow_natCast]
  have hlow : (1 : ℚ) ≤ Decimal.value ⟨1, exponent.natAbs⟩ := by
    rw [hvalue]
    exact one_le_pow₀ (by norm_num)
  have hhigh : Decimal.value ⟨1, exponent.natAbs⟩ ≤ 10 ^ 308 := by
    rw [hvalue]
    exact pow_le_pow_right₀ (by norm_num) hexponent
  obtain ⟨power, hpower, hpos, hfinite, -, herror⟩ :=
    exists_rank_of_decimal hlow hhigh (by dsimp only; omega)
  have hexact : exponent.natAbs ≤ 22 → absValue power = 10 ^ exponent.natAbs := by
    intro hsmall
    have hrank : Decimal.rank ⟨1, exponent.natAbs⟩ = power :=
      Decimal.rank_of_toBinary64 hfinite hpower
    rw [← hrank, absValue_rank_power hsmall]
  rw [hvalue] at herror
  by_cases hsign : 0 ≤ exponent
  · obtain ⟨rank, hproduct, hnearest⟩ := Binary64.exists_rank_mul hx hfinite
    refine ⟨power, rank, herror, hexact, ?_, ?_⟩
    · rwa [if_pos hsign]
    · intro hlt
      rw [scaleByTen, dif_pos hexponent, if_pos hsign, hpower, hproduct]
      dsimp only
      rw [Binary64.ofRank_of_lt false hlt]
      rfl
  · obtain ⟨rank, hquotient, hnearest⟩ := Binary64.exists_rank_div hx hfinite hpos
    refine ⟨power, rank, herror, hexact, ?_, ?_⟩
    · rwa [if_neg hsign]
    · intro hlt
      rw [scaleByTen, dif_pos hexponent, if_neg hsign, hpower, hquotient]

/-! ## Scaling below `10 ^ -308` -/

/-- The rank of the number nearest to `10 ^ 308`. -/
def largestPower : Nat := Decimal.rank ⟨1, 308⟩

/-- The exponent of the binade that `10 ^ 308` is in. -/
def largestBinade : Nat := 1023

/-- A magnitude compared with whole numbers, in units. -/
theorem absValue_bounds {rank low high power : Nat}
    (hlow : 111253 * (low * 2 ^ unitExponent) ≤ 100000 * units rank)
    (hhigh : 100000 * units rank ≤ 111254 * (high * 2 ^ unitExponent))
    (habove : 10 * 2 ^ 53 * units rank ≤ units rank + 10 * 2 ^ 53 * (power * 2 ^ unitExponent))
    (hbelow : 10 * 2 ^ 53 * (power * 2 ^ unitExponent) ≤
      units rank + 10 * 2 ^ 53 * units rank) :
    (111253 * low ≤ 100000 * absValue rank ∧ 100000 * absValue rank ≤ 111254 * high) ∧
      10 * 2 ^ 53 * |absValue rank - power| ≤ absValue rank := by
  have hpos : (0 : ℚ) < 2 ^ unitExponent := by positivity
  have hunits := Binary64.absValue_mul rank
  rw [← Nat.cast_le (α := ℚ)] at hlow hhigh habove hbelow
  push_cast at hlow hhigh habove hbelow
  rw [← hunits] at hlow hhigh habove hbelow
  generalize (2 : ℚ) ^ unitExponent = unit at *
  refine ⟨⟨?_, ?_⟩, ?_⟩
  · apply le_of_mul_le_mul_right _ hpos
    linarith
  · apply le_of_mul_le_mul_right _ hpos
    linarith
  · apply le_of_mul_le_mul_right _ hpos
    rcases abs_cases (absValue rank - power) with ⟨habs, -⟩ | ⟨habs, -⟩
    · rw [habs]
      linarith
    · rw [habs]
      linarith

theorem largestPower_bounds :
    (111253 * 2 ^ largestBinade ≤ 100000 * absValue largestPower ∧
        100000 * absValue largestPower ≤ 111254 * 2 ^ largestBinade) ∧
      10 * 2 ^ 53 * |absValue largestPower - 10 ^ 308| ≤ absValue largestPower := by
  have hbounds := @absValue_bounds largestPower (2 ^ largestBinade)
    (2 ^ largestBinade) (10 ^ 308)
    (by decide +kernel) (by decide +kernel) (by decide +kernel) (by decide +kernel)
  rw [Nat.cast_pow, Nat.cast_pow] at hbounds
  exact hbounds

/-- Three errors together, the last of which is small. -/
theorem mul_abs_sub_le_of_parts {exact near quotient rounded first second : ℚ} (hpos : 0 ≤ near)
    (hfirst : 2 ^ 53 * |quotient - near| ≤ first * near)
    (hsecond : 2 ^ 53 * |rounded - quotient| ≤ second * near)
    (hlast : 10 * 2 ^ 53 * |near - exact| ≤ exact) (hsum : first + second ≤ 1.8995) :
    2 ^ 52 * |rounded - exact| ≤ exact := by
  have hparts : |rounded - exact| ≤ |rounded - quotient| + |quotient - near| + |near - exact| := by
    have hsplit : rounded - exact = rounded - quotient + (quotient - near) + (near - exact) := by
      ring
    rw [hsplit]
    exact (abs_add_le _ _).trans (add_le_add_left (abs_add_le _ _) _)
  have hnear : near ≤ exact + |near - exact| := by linarith [le_abs_self (near - exact)]
  have htogether := mul_le_mul_of_nonneg_right hsum hpos
  linarith

section Quotient

variable {n digits power tenPower rounded scale : ℚ}

theorem mul_abs_div_sub_div_le (hpos : 0 ≤ n) (hpower : 0 < power) (hten : 0 < tenPower)
    (hlast : 10 * 2 ^ 53 * |power - tenPower| ≤ power) :
    10 * 2 ^ 53 * |n / power - n / tenPower| ≤ n / tenPower := by
  have hdifference : n / power - n / tenPower = n / tenPower * (-(power - tenPower) / power) := by
    field_simp
    ring
  rw [hdifference, abs_mul, abs_of_nonneg (div_nonneg hpos hten.le), abs_div, abs_neg,
    abs_of_pos hpower, mul_left_comm]
  apply mul_le_of_le_one_right (div_nonneg hpos hten.le)
  rwa [← mul_div_assoc, div_le_one hpower]

theorem mul_abs_div_sub_le_div {bound : ℚ} (hpower : 0 < power)
    (hdigits : 2 ^ 53 * |n - digits| ≤ bound) :
    2 ^ 53 * |digits / power - n / power| ≤ bound / power := by
  rw [← sub_div, abs_div, abs_of_pos hpower, abs_sub_comm, ← mul_div_assoc]
  exact div_le_div_of_nonneg_right hdigits hpower.le

/-- Digits far enough into their binade are rounded well enough for a full error of the
quotient. -/
theorem mul_abs_sub_le_of_high (hpos : 0 < n) (hpower : 0 < power) (hten : 0 < tenPower)
    (hlast : 10 * 2 ^ 53 * |power - tenPower| ≤ power)
    (hdigits : 2 ^ 53 * |n - digits| ≤ scale) (hscale : 11125 * scale ≤ 10000 * n)
    (hrounded : (2 ^ 53 + 1) * |digits / power - rounded| ≤ digits / power) :
    2 ^ 52 * |rounded - n / tenPower| ≤ n / tenPower := by
  have hnear : 0 < n / power := div_pos hpos hpower
  have hquotient := mul_abs_div_sub_le_div hpower hdigits
  have hbound : scale / power ≤ 0.8989 * (n / power) := by
    rw [← mul_div_assoc]
    apply div_le_div_of_nonneg_right _ hpower.le
    linarith
  rw [abs_sub_comm] at hrounded
  have habove := le_abs_self (digits / power - n / power)
  have hnonneg := abs_nonneg (rounded - digits / power)
  refine @mul_abs_sub_le_of_parts _ (n / power) (digits / power) rounded 0.8989 1.0005 hnear.le
    (hquotient.trans hbound) (by linarith)
    (mul_abs_div_sub_div_le hpos.le hpower hten hlast) (by norm_num)

/-- Digits at the start of their binade lead to a quotient at the end of its binade, which is
rounded well enough for a full error of the digits. -/
theorem mul_abs_sub_le_of_low {base : ℚ} (hpos : 0 < n) (hpower : 0 < power)
    (hten : 0 < tenPower) (hlast : 10 * 2 ^ 53 * |power - tenPower| ≤ power)
    (hdigits : 2 ^ 53 * |n - digits| ≤ scale) (hscale : scale ≤ n) (hbase : 0 < base)
    (hpower' : 100000 * power ≤ 111254 * base)
    (hrounded : 2 ^ 53 * |digits / power - rounded| ≤ scale / (2 * base)) :
    2 ^ 52 * |rounded - n / tenPower| ≤ n / tenPower := by
  have hnear : 0 < n / power := div_pos hpos hpower
  have hquotient := mul_abs_div_sub_le_div hpower hdigits
  have hfirst : scale / power ≤ 1 * (n / power) := by
    rw [one_mul]
    exact div_le_div_of_nonneg_right hscale hpower.le
  have hsecond : scale / (2 * base) ≤ 0.56 * (n / power) := by
    rw [← mul_div_assoc, div_le_div_iff₀ (by linarith) hpower]
    have hleft := mul_le_mul_of_nonneg_right hscale hpower.le
    have hright := mul_le_mul_of_nonneg_left hpower' hpos.le
    have hproduct := mul_pos hpos hbase
    linarith
  rw [abs_sub_comm] at hrounded
  exact mul_abs_sub_le_of_parts hnear.le (hquotient.trans hfirst) (hrounded.trans hsecond)
    (mul_abs_div_sub_div_le hpos.le hpower hten hlast) (by norm_num)

end Quotient

theorem mul_abs_absValue_sub_le {rank n power : Nat} (hpower : 0 < power)
    (habove : 2 ^ 52 * (units rank * power) ≤ (2 ^ 52 + 1) * (n * 2 ^ unitExponent))
    (hbelow : 2 ^ 52 * (n * 2 ^ unitExponent) ≤
      2 ^ 52 * (units rank * power) + n * 2 ^ unitExponent) :
    2 ^ 52 * |absValue rank - (n / power : ℚ)| ≤ (n / power : ℚ) := by
  have hpos : (0 : ℚ) < 2 ^ unitExponent := by positivity
  have hpos' : (0 : ℚ) < power := by exact_mod_cast hpower
  have hunits := Binary64.absValue_mul rank
  have hdifference : absValue rank - n / power = (absValue rank * power - n) / power := by
    field_simp
  rw [← Nat.cast_le (α := ℚ)] at habove hbelow
  push_cast at habove hbelow
  rw [← hunits] at habove hbelow
  rw [hdifference, abs_div, abs_of_pos hpos', ← mul_div_assoc]
  apply div_le_div_of_nonneg_right _ hpos'.le
  generalize (2 : ℚ) ^ unitExponent = unit at *
  apply le_of_mul_le_mul_right _ hpos
  rcases abs_cases (absValue rank * power - n) with ⟨habs, -⟩ | ⟨habs, -⟩
  · rw [habs]
    linarith
  · rw [habs]
    linarith

theorem value_natural (n : Nat) : Decimal.value ⟨n, 0⟩ = n := by
  rw [Decimal.value, zpow_zero, mul_one]

theorem two_pow_unitExponent : (2 : ℚ) ^ unitExponent = 2 ^ largestBinade * 2 ^ 51 := by
  rw [← pow_add]
  rfl

/-- The rounding of digits, by the binade that they are in. -/
theorem mul_abs_natural_sub_le {n exponent digits : Nat} (hlt : n < 2 ^ (exponent + 1))
    (hnearest : IsNearestRank (n * 2 ^ unitExponent) digits) :
    2 ^ 53 * |n - absValue digits| ≤ 2 ^ exponent := by
  obtain ⟨rest, hrest⟩ : ∃ rest, unitExponent = rest + 52 := ⟨1022, rfl⟩
  rw [Binary64.abs_sub_absValue]
  rw [hrest] at hnearest ⊢
  have hspacing : (n : ℚ) * 2 ^ (rest + 52) < 2 ^ (53 + (exponent + rest)) := by
    have hexponent : 53 + (exponent + rest) = exponent + 1 + (rest + 52) := by omega
    rw [hexponent, pow_add _ (exponent + 1)]
    apply mul_lt_mul_of_pos_right _ (by positivity)
    exact_mod_cast hlt
  have hhalf := hnearest.two_mul_abs_sub_le (by positivity) hspacing
  have hscale : (2 : ℚ) ^ exponent * 2 ^ (rest + 52) = 2 ^ 52 * 2 ^ (exponent + rest) := by
    rw [← pow_add, ← pow_add]
    congr 1
    omega
  rw [← mul_div_assoc, div_le_iff₀ (by positivity), hscale]
  linarith

/-- The quotient of digits at the start of their binade is rounded by the binade before. -/
theorem mul_abs_quotient_sub_le {digits power : ℚ} {exponent rank : Nat} (hexponent : 2 ≤ exponent)
    (hpos : 0 ≤ digits) (hpower : 0 < power) (hlow : 111253 * 2 ^ largestBinade ≤ 100000 * power)
    (hdigits : 100000 * digits < 111253 * 2 ^ exponent)
    (hnearest : IsNearestRank (digits / power * 2 ^ unitExponent) rank) :
    2 ^ 53 * |digits / power - absValue rank| ≤ 2 ^ exponent / (2 * 2 ^ largestBinade) := by
  obtain ⟨shift, rfl⟩ := Nat.exists_eq_add_of_le hexponent
  have hbase : (0 : ℚ) < 2 ^ largestBinade := by positivity
  have hscale : (2 : ℚ) ^ (2 + shift) = 4 * 2 ^ shift := by
    rw [pow_add]
    norm_num
  rw [Binary64.abs_sub_absValue]
  rw [two_pow_unitExponent] at hnearest ⊢
  rw [hscale] at hdigits ⊢
  have hspacing : digits / power * (2 ^ largestBinade * 2 ^ 51) < 2 ^ (53 + shift) := by
    have hleft := mul_lt_mul_of_pos_right hdigits hbase
    have hright := mul_le_mul_of_nonneg_left hlow (show (0 : ℚ) ≤ 2 ^ shift by positivity)
    rw [div_mul_eq_mul_div, div_lt_iff₀ hpower, pow_add]
    linarith
  have hhalf := hnearest.two_mul_abs_sub_le (by positivity) hspacing
  rw [← mul_div_assoc, div_le_div_iff₀ (by positivity) (by positivity)]
  have hproduct := mul_le_mul_of_nonneg_right hhalf hbase.le
  linarith

theorem exists_rank_of_natural {n : Nat} (hpos : 0 < n) (hle : n ≤ 10 ^ 17) :
    ∃ rank, Decimal.toBinary64 false ⟨n, 0⟩ = ofRank false rank ∧ 0 < rank ∧
      rank < finiteCount ∧ IsNearestRank (n * 2 ^ unitExponent) rank ∧
      (2 ^ 53 + 1) * |n - absValue rank| ≤ n := by
  have hlow : (1 : ℚ) ≤ n := by exact_mod_cast hpos
  have hhigh : (n : ℚ) ≤ 10 ^ 308 :=
    le_trans (by exact_mod_cast hle) (pow_le_pow_right₀ (by norm_num) (show 17 ≤ 308 by decide))
  have hrank := @exists_rank_of_decimal ⟨n, 0⟩ (by rwa [value_natural]) (by rwa [value_natural])
    (show (0 : Int) ≤ 308 by decide)
  rwa [value_natural] at hrank

theorem absValue_largestPower_pos : 0 < absValue largestPower :=
  Binary64.absValue_pos (by decide +kernel)

/-- The digits and their quotient by the largest power are not both rounded badly. -/
theorem mul_abs_absValue_sub_div_le {n digits rank : Nat} (hthree : 3 ≤ n)
    (hdigits : IsNearestRank (n * 2 ^ unitExponent) digits)
    (hrank : IsNearestRank (absValue digits / absValue largestPower * 2 ^ unitExponent) rank) :
    2 ^ 52 * |absValue rank - (n / 10 ^ 308 : ℚ)| ≤ (n / 10 ^ 308 : ℚ) := by
  obtain ⟨exponent, hlow, hhigh⟩ : ∃ exponent, 2 ^ exponent ≤ n ∧ n < 2 ^ (exponent + 1) :=
    ⟨n.log2, Nat.log2_self_le (by omega), Nat.lt_log2_self⟩
  have hthree : (3 : ℚ) ≤ n := by exact_mod_cast hthree
  have hscale : (2 : ℚ) ^ exponent ≤ n := by exact_mod_cast hlow
  have herror := mul_abs_natural_sub_le hhigh hdigits
  have hnear := abs_le.mp (show |n - absValue digits| ≤ n / 2 ^ 53 by linarith)
  obtain ⟨⟨hpower, hpower'⟩, hlast⟩ := largestPower_bounds
  have hpos := absValue_largestPower_pos
  by_cases hstart : 10000 * (n : ℚ) < 11125 * 2 ^ exponent
  · have hexponent : 2 ≤ exponent := by
      by_contra hfew
      have hle : (2 : ℚ) ^ exponent ≤ 2 ^ 1 := pow_le_pow_right₀ (by norm_num) (by omega)
      linarith
    have hrounded := mul_abs_quotient_sub_le hexponent (by linarith) hpos hpower (by linarith) hrank
    exact mul_abs_sub_le_of_low (by linarith) hpos (by positivity) hlast herror hscale
      (by positivity) hpower' hrounded
  · apply mul_abs_sub_le_of_high (by linarith) hpos (by positivity) hlast herror
      (not_lt.mp hstart)
    apply Binary64.mul_abs_sub_absValue_le hrank
    have hbase : (0 : ℚ) < 2 ^ largestBinade := by positivity
    have hproduct := mul_le_mul_of_nonneg_right (show 2.9 ≤ absValue digits by linarith) hbase.le
    rw [two_pow_unitExponent, div_mul_eq_mul_div, le_div_iff₀ hpos]
    linarith

/-- The quotient of digits by the largest power is finite. -/
theorem lt_finiteCount_of_div_largestPower {digits rank : Nat} (hdigits : absValue digits ≤ 2 ^ 58)
    (hrank : IsNearestRank (absValue digits / absValue largestPower * 2 ^ unitExponent) rank) :
    rank < finiteCount := by
  obtain ⟨⟨hpower, -⟩, -⟩ := largestPower_bounds
  have hbase : (2 : ℚ) ^ 58 ≤ 2 ^ largestBinade := pow_le_pow_right₀ (by norm_num) (by decide)
  have hone : (1 : ℚ) ≤ 10 ^ 308 := one_le_pow₀ (by norm_num)
  have hquotient : absValue digits / absValue largestPower ≤ 1 := by
    rw [div_le_one absValue_largestPower_pos]
    linarith
  rw [hrank.lt_finiteCount_iff]
  apply mul_lt_mul_of_pos_right _ (by positivity)
  exact hquotient.trans_lt (hone.trans_lt ten_pow_308_lt_overflowFrom)

/-- The digits `1` and `2` divided by the largest power are below the second binade. -/
theorem exists_rank_div_largestPower_of_le_two {n : Nat} (hpos : 0 < n) (hle : n ≤ 2) :
    ∃ rank, Decimal.toBinary64 false ⟨n, 0⟩ / Decimal.toBinary64 false ⟨1, 308⟩ =
        ofRank false rank ∧ rank < finiteCount ∧
      2 ^ 52 * |absValue rank - (n / 10 ^ 308 : ℚ)| ≤ (n / 10 ^ 308 : ℚ) := by
  have hcases : n = 1 ∨ n = 2 := by omega
  rcases hcases with rfl | rfl
  · refine ⟨2024022533073106, by decide +kernel, by decide, ?_⟩
    have herror := @mul_abs_absValue_sub_le 2024022533073106 1 (10 ^ 308) (by decide +kernel)
      (by decide +kernel) (by decide +kernel)
    rwa [Nat.cast_pow] at herror
  · refine ⟨4048045066146212, by decide +kernel, by decide, ?_⟩
    have herror := @mul_abs_absValue_sub_le 4048045066146212 2 (10 ^ 308) (by decide +kernel)
      (by decide +kernel) (by decide +kernel)
    rwa [Nat.cast_pow] at herror

/-- The first of two scalings below `10 ^ -308` is off by at most one part in `2 ^ 52`. -/
theorem exists_rank_div_largestPower {n : Nat} (hpos : 0 < n) (hle : n ≤ 10 ^ 17) :
    ∃ rank, Decimal.toBinary64 false ⟨n, 0⟩ / Decimal.toBinary64 false ⟨1, 308⟩ =
        ofRank false rank ∧ rank < finiteCount ∧
      2 ^ 52 * |absValue rank - (n / 10 ^ 308 : ℚ)| ≤ (n / 10 ^ 308 : ℚ) := by
  by_cases hsmall : n ≤ 2
  · exact exists_rank_div_largestPower_of_le_two hpos hsmall
  obtain ⟨digits, hdigits, -, hfinite, hnearest, herror⟩ := exists_rank_of_natural hpos hle
  obtain ⟨rank, hquotient, hrounded⟩ :=
    Binary64.exists_rank_div hfinite (show largestPower < finiteCount by decide +kernel)
      (show 0 < largestPower by decide +kernel)
  have hbound : absValue digits ≤ 2 ^ 58 := by
    have hnear := abs_le.mp (show |n - absValue digits| ≤ n / (2 ^ 53 + 1) by linarith)
    have hlarge : (n : ℚ) ≤ 10 ^ 17 := by exact_mod_cast hle
    linarith
  refine ⟨rank, ?_, lt_finiteCount_of_div_largestPower hbound hrounded, ?_⟩
  · rw [hdigits]
    exact hquotient
  · exact mul_abs_absValue_sub_div_le (by omega) hnearest hrounded

/-! ## The whole scaling -/

theorem value_eq_scaled (n : Nat) (exponent : Int) :
    Decimal.value ⟨n, exponent⟩ =
      if 0 ≤ exponent then (n * 10 ^ exponent.natAbs : ℚ) else n / 10 ^ exponent.natAbs := by
  rw [Decimal.value]
  split
  · next hsign =>
      obtain ⟨places, rfl⟩ := Int.eq_ofNat_of_zero_le hsign
      rw [Int.natAbs_natCast, zpow_natCast]
  · next hsign =>
      obtain ⟨places, hplaces⟩ := Int.exists_eq_neg_ofNat (le_of_not_ge hsign)
      rw [hplaces, Int.natAbs_neg, Int.natAbs_natCast, zpow_neg, zpow_natCast, div_eq_mul_inv]

/-- What digits scaled by a power of ten are rounded from is off by at most one part in
`2 ^ 52`. -/
theorem exists_rank_of_scaleByTen {n : Nat} {exponent : Int} (hpos : 0 < n) (hle : n ≤ 10 ^ 17)
    (hlow : -324 ≤ exponent) (hhigh : exponent ≤ 308) :
    ∃ (q : ℚ) (rank : Nat),
      2 ^ 52 * |q - Decimal.value ⟨n, exponent⟩| ≤ Decimal.value ⟨n, exponent⟩ ∧
      IsNearestRank (q * 2 ^ unitExponent) rank ∧
      (rank < finiteCount →
        scaleByTen (Decimal.toBinary64 false ⟨n, 0⟩) exponent = some (ofRank false rank)) := by
  obtain ⟨digits, hdigits, hdigitsPos, hfinite, -, herror⟩ := exists_rank_of_natural hpos hle
  rw [value_eq_scaled, hdigits]
  by_cases honce : exponent.natAbs ≤ 308
  · obtain ⟨power, rank, hpower, -, hrounded, hscaled⟩ := exists_scaleByTen hfinite honce
    refine ⟨_, rank, ?_, hrounded, hscaled⟩
    by_cases hsign : 0 ≤ exponent
    · rw [if_pos hsign, if_pos hsign]
      exact Binary64.mul_abs_mul_sub_le herror hpower
    · rw [if_neg hsign, if_neg hsign]
      exact Binary64.mul_abs_div_sub_le herror hpower (by positivity)
  · obtain ⟨first, hquotient, hfirst, hlargest⟩ := exists_rank_div_largestPower hpos hle
    obtain ⟨power, rank, -, hexact, hrounded, hscaled⟩ :=
      exists_scaleByTen hfirst (show (exponent + 308).natAbs ≤ 308 by omega)
    have hsign : ¬0 ≤ exponent := by omega
    have hsign' : ¬0 ≤ exponent + 308 := by omega
    have hplaces : exponent.natAbs = 308 + (exponent + 308).natAbs := by omega
    rw [if_neg hsign', hexact (by omega)] at hrounded
    refine ⟨_, rank, ?_, hrounded, ?_⟩
    · rw [if_neg hsign, hplaces, pow_add, ← div_div, ← sub_div, abs_div,
        abs_of_pos (show (0 : ℚ) < 10 ^ (exponent + 308).natAbs by positivity), ← mul_div_assoc]
      exact div_le_div_of_nonneg_right hlargest (by positivity)
    · intro hlt
      have hzero : (ofRank false digits).isZero = false := by
        rw [Binary64.ofRank_of_lt false hfinite, Binary64.isZero, beq_eq_false_iff_ne]
        exact hdigitsPos.ne'
      rw [scaleByTen, dif_neg honce, hzero, if_neg Bool.false_ne_true, dif_neg hsign, ← hdigits,
        hquotient]
      exact hscaled hlt

/-- Exact digits scaled by an exact power of ten are rounded once. -/
theorem exists_rank_of_exact {digits : Nat} (hfinite : digits < finiteCount) {n : Nat}
    (hexact : absValue digits = n) {exponent : Int} (hexponent : exponent.natAbs ≤ 22) :
    ∃ rank, IsNearestRank (Decimal.value ⟨n, exponent⟩ * 2 ^ unitExponent) rank ∧
      (rank < finiteCount →
        scaleByTen (Decimal.toBinary64 false ⟨n, 0⟩) exponent = some (ofRank false rank)) := by
  have hdigits : Decimal.toBinary64 false ⟨n, 0⟩ = ofRank false digits :=
    Decimal.toBinary64_of_value false (by rw [value_natural, hexact])
  obtain ⟨power, rank, -, hpower, hrounded, hscaled⟩ :=
    exists_scaleByTen hfinite (show exponent.natAbs ≤ 308 by omega)
  rw [hpower hexponent, hexact, ← value_eq_scaled] at hrounded
  rw [hdigits]
  exact ⟨rank, hrounded, hscaled⟩

end Keypad.Json
