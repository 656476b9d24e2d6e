import Keypad.Binary64.Arithmetic
import Keypad.Proofs.Binary64.Nearest

/-!
# How far rounding goes

The magnitudes around a number are half a spacing away from it at most, and from the second binade
on a spacing is at most one part in `2 ^ 52` of the magnitudes in it.  Three ranks are further
apart than that, so an error of one part in `2 ^ 52` does not move the nearest rank by three.
-/

namespace Keypad.Binary64

/-! ## Half-way points -/

/-- What is at least as near to the lower of two numbers is not past the middle. -/
theorem two_mul_le_of_nearer {q low high : ℚ} (hlt : low < high) (hnear : |q - low| ≤ |q - high|) :
    2 * q ≤ low + high := by
  by_contra hpast
  have hhigh : |q - high| < q - low := abs_lt.mpr ⟨by linarith, by linarith⟩
  exact absurd (le_abs_self (q - low)) (not_le.mpr (hnear.trans_lt hhigh))

theorem IsNearestRank.two_mul_le {q : ℚ} {rank : Nat} (hnearest : IsNearestRank q rank) :
    2 * q ≤ units rank + units (rank + 1) := by
  apply two_mul_le_of_nearer
  · exact_mod_cast units_lt_succ rank
  · rcases hnearest (rank + 1) (Nat.succ_ne_self rank) with hlt | ⟨heq, -⟩
    · exact hlt.le
    · exact heq.le

theorem IsNearestRank.le_two_mul {q : ℚ} {rank : Nat} (hnearest : IsNearestRank q (rank + 1)) :
    units rank + units (rank + 1) ≤ 2 * q := by
  have hnear : |q - units (rank + 1)| ≤ |q - units rank| := by
    rcases hnearest rank (Nat.succ_ne_self rank).symm with hlt | ⟨heq, -⟩
    · exact hlt.le
    · exact heq.le
  have hlt : (units rank : ℚ) < units (rank + 1) := by exact_mod_cast units_lt_succ rank
  have hmirrored : 2 * -q ≤ -units (rank + 1) + -units rank := by
    apply two_mul_le_of_nearer (neg_lt_neg hlt)
    rwa [neg_sub_neg, neg_sub_neg, abs_sub_comm, abs_sub_comm (units rank : ℚ)]
  linarith

/-! ## Spacings -/

/-- The magnitude after a rank is one spacing further.  It is at most `2 ^ 53` of these spacings
and, from the second binade on, more than `2 ^ 52`. -/
theorem exists_spacing (rank : Nat) :
    ∃ shift, units (rank + 1) = units rank + 2 ^ shift ∧ units (rank + 1) ≤ 2 ^ (53 + shift) ∧
      (shift = 0 ∨ 2 ^ (52 + shift) ≤ units rank) := by
  obtain ⟨shift, count, rfl, hshift, hcount⟩ := exists_spacings rank
  have hnext : units (shift * binade + count + 1) = (count + 1) * 2 ^ shift := by
    rw [Nat.add_assoc, units_spacings (hshift.imp_right Nat.le_succ_of_le) hcount]
  refine ⟨shift, ?_, ?_, ?_⟩
  · rw [hnext, units_spacings hshift hcount.le, Nat.succ_mul]
  · have hdouble : 2 * binade = 2 ^ 53 := rfl
    rw [hnext, Nat.pow_add, ← hdouble]
    exact Nat.mul_le_mul_right _ hcount
  · apply hshift.imp_right
    intro hbinade
    rw [units_spacings (Or.inr hbinade) hcount.le, Nat.pow_add, ← binade_eq]
    exact Nat.mul_le_mul_right _ hbinade

/-- Spacings never get smaller. -/
theorem two_mul_units_le (rank : Nat) :
    2 * units (rank + 1) ≤ units rank + units (rank + 2) := by
  obtain ⟨shift, hnext, -, hlarge⟩ := exists_spacing rank
  obtain ⟨shift', hnext', hle', -⟩ := exists_spacing (rank + 1)
  have hshift : shift ≤ shift' := by
    rcases hlarge with rfl | hlarge
    · exact Nat.zero_le shift'
    · have hlt : 2 ^ (52 + shift) < 2 ^ (53 + shift') :=
        (hlarge.trans_lt (units_strictMono (show rank < rank + 2 by omega))).trans_le hle'
      have hexponent := (Nat.pow_lt_pow_iff_right (by decide : 1 < 2)).mp hlt
      omega
  have hpow : 2 ^ shift ≤ 2 ^ shift' := Nat.pow_le_pow_right (by decide) hshift
  change units (rank + 2) = _ at hnext'
  omega

/-- A magnitude is at most `2 ^ 53` of the spacings before it. -/
theorem units_le_mul_spacing (rank : Nat) :
    units (rank + 1) + 2 ^ 53 * units rank ≤ 2 ^ 53 * units (rank + 1) := by
  obtain ⟨shift, hnext, hle, -⟩ := exists_spacing rank
  rw [Nat.pow_add] at hle
  omega

/-- A number lies at a magnitude or within the spacing after it, and is rounded to the nearer end
of the spacing. -/
theorem IsNearestRank.exists_spacing {q : ℚ} {rank : Nat} (hnearest : IsNearestRank q rank)
    (hpos : 0 ≤ q) :
    ∃ low shift : Nat, (units low : ℚ) ≤ q ∧ q < units low + 2 ^ shift ∧
      (shift = 0 ∨ 2 ^ (52 + shift) ≤ units low) ∧
      2 * |q - units rank| ≤ 2 ^ shift ∧
      (|q - units rank| = q - units low ∨ |q - units rank| = units low + 2 ^ shift - q) := by
  rcases le_or_gt (units rank : ℚ) q with hbelow | habove
  · obtain ⟨shift, hnext, -, hlarge⟩ := Binary64.exists_spacing rank
    have hmiddle := hnearest.two_mul_le
    have hself : |q - units rank| = q - units rank := abs_of_nonneg (by linarith)
    have hspacing : (0 : ℚ) < 2 ^ shift := by positivity
    rw [hnext] at hmiddle
    push_cast at hmiddle
    refine ⟨rank, shift, hbelow, by linarith, hlarge, ?_, Or.inl hself⟩
    rw [hself]
    linarith
  · obtain ⟨low, rfl⟩ : ∃ low, rank = low + 1 := by
      apply Nat.exists_eq_succ_of_ne_zero
      rintro rfl
      rw [units_of_lt (by decide), Nat.cast_zero] at habove
      exact absurd habove (not_lt.mpr hpos)
    obtain ⟨shift, hnext, -, hlarge⟩ := Binary64.exists_spacing low
    have hmiddle := hnearest.le_two_mul
    have hself : |q - units (low + 1)| = units (low + 1) - q := by
      rw [abs_sub_comm]
      exact abs_of_nonneg (by linarith)
    have hspacing : (0 : ℚ) < 2 ^ shift := by positivity
    rw [hnext] at hmiddle habove hself ⊢
    push_cast at hmiddle habove hself ⊢
    refine ⟨low, shift, by linarith, habove, hlarge, ?_, Or.inr hself⟩
    rw [hself]
    linarith

/-- Rounding moves a number by at most half a spacing. -/
theorem IsNearestRank.two_mul_abs_sub_le {q : ℚ} {rank shift : Nat}
    (hnearest : IsNearestRank q rank) (hpos : 0 ≤ q) (hq : q < 2 ^ (53 + shift)) :
    2 * |q - units rank| ≤ 2 ^ shift := by
  obtain ⟨low, actual, hlow, -, hlarge, hhalf, -⟩ := hnearest.exists_spacing hpos
  have hle : actual ≤ shift := by
    rcases hlarge with rfl | hlarge
    · exact Nat.zero_le shift
    · have hlt : (2 : ℚ) ^ (52 + actual) < 2 ^ (53 + shift) := by
        refine lt_of_le_of_lt ?_ (hlow.trans_lt hq)
        exact_mod_cast hlarge
      have hexponent := (pow_lt_pow_iff_right₀ (by norm_num : (1 : ℚ) < 2)).mp hlt
      omega
  exact hhalf.trans (pow_le_pow_right₀ (by norm_num) hle)

/-- From the second binade on rounding moves a number by less than one part in `2 ^ 53`. -/
theorem IsNearestRank.mul_abs_sub_le {q : ℚ} {rank : Nat} (hnearest : IsNearestRank q rank)
    (hq : 2 ^ 52 ≤ q) : (2 ^ 53 + 1) * |q - units rank| ≤ q := by
  obtain ⟨low, shift, hlow, hhigh, hlarge, hhalf, hself⟩ :=
    hnearest.exists_spacing (le_trans (by norm_num) hq)
  have hspacings : (2 : ℚ) ^ 52 * 2 ^ shift ≤ units low := by
    rcases hlarge with rfl | hlarge
    · have hlt : (2 ^ 52 : Nat) < units low + 1 := by
        have hlt : ((2 ^ 52 : Nat) : ℚ) < units low + 1 := by
          push_cast
          linarith
        exact_mod_cast hlt
      rw [pow_zero, mul_one]
      exact_mod_cast Nat.le_of_lt_succ hlt
    · rw [← pow_add]
      exact_mod_cast hlarge
  rcases hself with hself | hself
  · linarith
  · linarith

/-! ## Ranks -/

/-- Two successive magnitudes together, some spacings into a binade or just past its end. -/
theorem le_units_add_units {shift count : Nat} (hshift : shift = 0 ∨ binade ≤ count)
    (hcount : count < 2 * binade) :
    count + 3 ≤ 2 * binade ∧
        (2 * count + 5) * 2 ^ shift ≤
          units (shift * binade + count + 2) + units (shift * binade + count + 3) ∨
      (2 * count + 6) * 2 ^ shift ≤
        units (shift * binade + count + 2) + units (shift * binade + count + 3) := by
  by_cases hinside : count + 3 ≤ 2 * binade
  · refine Or.inl ⟨hinside, ?_⟩
    rw [Nat.add_assoc, Nat.add_assoc, units_spacings (hshift.imp_right (by omega)) (by omega),
      units_spacings (hshift.imp_right (by omega)) hinside, ← Nat.add_mul]
    exact Nat.mul_le_mul_right _ (by omega)
  · -- The next binade starts here; its spacing is twice as large.
    obtain ⟨excess, hexcess⟩ := Nat.exists_eq_add_of_le (show 2 * binade ≤ count + 2 by omega)
    have hrank : shift * binade + count + 2 = (shift + 1) * binade + (binade + excess) := by
      rw [Nat.add_assoc, hexcess]
      ring
    have hnext : shift * binade + count + 3 = (shift + 1) * binade + (binade + excess + 1) := by
      rw [← Nat.add_assoc, ← hrank]
    have hunits : ∀ more ≤ 2, units ((shift + 1) * binade + (binade + more)) =
        2 * (binade + more) * 2 ^ shift := by
      intro more hmore
      have hinside : binade + more ≤ 2 * binade := by
        have htwo : 2 ≤ binade := by decide
        omega
      rw [units_spacings (Or.inr (Nat.le_add_right _ _)) hinside, Nat.pow_succ]
      ring
    right
    rw [hrank, hnext, hunits excess (by omega), Nat.add_assoc binade,
      hunits (excess + 1) (by omega), ← Nat.add_mul]
    exact Nat.mul_le_mul_right _ (by omega)

/-- A number three ranks above another is off by more than one part in `2 ^ 52`. -/
theorem lt_mul_sub_of_three_ranks {x y : ℚ} {rank : Nat}
    (hx : 2 * x ≤ units rank + units (rank + 1))
    (hy : (units (rank + 2) + units (rank + 3) : ℚ) ≤ 2 * y) :
    x < y ∧ y < 2 ^ 52 * (y - x) := by
  obtain ⟨shift, count, rfl, hshift, hcount⟩ := exists_spacings rank
  have hpos : (0 : ℚ) < 2 ^ shift := by positivity
  rw [Nat.add_assoc (shift * binade), units_spacings hshift hcount.le,
    units_spacings (hshift.imp_right Nat.le_succ_of_le) hcount] at hx
  push_cast at hx
  rcases le_units_add_units hshift hcount with ⟨hinside, hsum⟩ | hsum
  · have hcast : ((2 * count + 5) * 2 ^ shift : ℚ) ≤ 2 * y := le_trans (by exact_mod_cast hsum) hy
    have hle : (count : ℚ) * 2 ^ shift ≤ (2 ^ 53 - 3) * 2 ^ shift := by
      apply mul_le_mul_of_nonneg_right _ hpos.le
      have hcount : ((count + 3 : Nat) : ℚ) ≤ (2 * binade : Nat) := by exact_mod_cast hinside
      rw [binade_eq] at hcount
      push_cast at hcount
      linarith
    constructor <;> linarith
  · have hcast : ((2 * count + 6) * 2 ^ shift : ℚ) ≤ 2 * y := le_trans (by exact_mod_cast hsum) hy
    have hle : (count : ℚ) * 2 ^ shift ≤ 2 ^ 53 * 2 ^ shift := by
      apply mul_le_mul_of_nonneg_right _ hpos.le
      have hcount : (count : ℚ) ≤ (2 * binade : Nat) := by exact_mod_cast hcount.le
      rw [binade_eq] at hcount
      push_cast at hcount
      linarith
    constructor <;> linarith

/-- An error of one part in `2 ^ 52` moves the nearest rank by two at most. -/
theorem ranks_of_mul_abs_sub_le {d q : ℚ} {rank rank' : Nat} (hd : IsNearestRank d rank)
    (hq : IsNearestRank q rank') (herror : 2 ^ 52 * |q - d| ≤ d) :
    rank ≤ rank' + 2 ∧ rank' ≤ rank + 2 := by
  have hmono : ∀ {low high : Nat}, low ≤ high → (units low : ℚ) ≤ units high := by
    intro low high hle
    exact_mod_cast units_strictMono.monotone hle
  constructor
  · by_contra hfar
    obtain ⟨high, rfl⟩ : ∃ high, rank = high + 1 := ⟨rank - 1, by omega⟩
    obtain ⟨hlt, hthree⟩ := @lt_mul_sub_of_three_ranks q d rank' hq.two_mul_le
      (le_trans (add_le_add (hmono (by omega)) (hmono (by omega))) hd.le_two_mul)
    have habs : d - q ≤ |q - d| := by
      rw [abs_sub_comm]
      exact le_abs_self _
    linarith
  · by_contra hfar
    obtain ⟨high, rfl⟩ : ∃ high, rank' = high + 1 := ⟨rank' - 1, by omega⟩
    obtain ⟨hlt, hthree⟩ := @lt_mul_sub_of_three_ranks d q rank hd.two_mul_le
      (le_trans (add_le_add (hmono (by omega)) (hmono (by omega))) hq.le_two_mul)
    have habs : q - d ≤ |q - d| := le_abs_self _
    linarith

/-- A finite number has one sign and one rank. -/
theorem ofRank_eq_iff {negative negative' : Bool} {rank rank' : Nat}
    (hfinite : rank < finiteCount) :
    ofRank negative' rank' = ofRank negative rank ↔ negative' = negative ∧ rank' = rank := by
  rw [ofRank_of_lt negative hfinite]
  by_cases hlt : rank' < finiteCount
  · rw [ofRank_of_lt negative' hlt, Binary64.finite.injEq, Fin.mk.injEq]
  · rw [ofRank_of_le negative' (Nat.not_lt.mp hlt)]
    constructor
    · intro hequal
      cases hequal
    · rintro ⟨-, rfl⟩
      exact absurd hfinite hlt

theorem eq_of_ofRank_eq {negative : Bool} {rank rank' : Nat} (hfinite : rank < finiteCount)
    (hequal : ofRank negative rank' = ofRank negative rank) : rank' = rank :=
  ((ofRank_eq_iff hfinite).mp hequal).2

/-- The nearest rank is the only one, if it is finite. -/
theorem IsNearestRank.unique {value : ℚ} {rank rank' : Nat} (hfinite : rank < finiteCount)
    (hnearest : IsNearestRank (value * 2 ^ unitExponent) rank)
    (hnearest' : IsNearestRank (value * 2 ^ unitExponent) rank') : rank' = rank :=
  eq_of_ofRank_eq hfinite
    (isNearest_unique (isNearest_ofRank false hnearest') (isNearest_ofRank false hnearest))

/-- The nearest rank never decreases. -/
theorem IsNearestRank.mono {value value' : ℚ} {rank rank' : Nat} (hfinite : rank' < finiteCount)
    (hnearest : IsNearestRank (value * 2 ^ unitExponent) rank)
    (hnearest' : IsNearestRank (value' * 2 ^ unitExponent) rank') (hle : value ≤ value') :
    rank ≤ rank' := by
  by_contra hlt
  obtain ⟨low, rfl⟩ : ∃ low, rank = low + 1 := ⟨rank - 1, by omega⟩
  have hmono : ∀ {small large : Nat}, small ≤ large → (units small : ℚ) ≤ units large := by
    intro small large hle
    exact_mod_cast units_strictMono.monotone hle
  have hpos : (0 : ℚ) < 2 ^ unitExponent := by positivity
  have hscaled := mul_le_mul_of_nonneg_right hle hpos.le
  have hbelow := hnearest.le_two_mul
  have habove := hnearest'.two_mul_le
  have hranks := add_le_add (hmono (show rank' ≤ low by omega))
    (hmono (show rank' + 1 ≤ low + 1 by omega))
  -- Both values are half-way between the same two magnitudes.
  have hequal : value = value' := mul_right_cancel₀ hpos.ne' (by linarith)
  rw [hequal] at hnearest
  exact hlt (hnearest'.unique hfinite hnearest).le

/-! ## Products and quotients -/

theorem absValue_mul (rank : Nat) : absValue rank * 2 ^ unitExponent = units rank :=
  div_mul_cancel₀ _ (by positivity)

theorem absValue_zero : absValue 0 = 0 := by
  rw [absValue, units_of_lt (by decide), Nat.cast_zero, zero_div]

theorem absValue_pos {rank : Nat} (hpos : 0 < rank) : 0 < absValue rank := by
  rw [← absValue_zero]
  exact absValue_strictMono hpos

/-- A product is rounded once. -/
theorem exists_rank_mul {x y : Nat} (hx : x < finiteCount) (hy : y < finiteCount) :
    ∃ rank, ofRank false x * ofRank false y = ofRank false rank ∧
      IsNearestRank (absValue x * absValue y * 2 ^ unitExponent) rank := by
  rw [ofRank_of_lt false hx, ofRank_of_lt false hy]
  refine ⟨_, rfl, ?_⟩
  have hnearest := isNearestRank_nearestRank (units x * units y)
    (show 0 < 1 <<< unitExponent by decide)
  have hunits : ((units x * units y : Nat) / (1 <<< unitExponent : Nat) : ℚ) =
      absValue x * absValue y * 2 ^ unitExponent := by
    rw [Nat.shiftLeft_eq, Nat.one_mul, Nat.cast_mul, absValue, absValue]
    push_cast
    field_simp
  rwa [hunits] at hnearest

/-- A quotient is rounded once. -/
theorem exists_rank_div {x y : Nat} (hx : x < finiteCount) (hy : y < finiteCount) (hpos : 0 < y) :
    ∃ rank, ofRank false x / ofRank false y = ofRank false rank ∧
      IsNearestRank (absValue x / absValue y * 2 ^ unitExponent) rank := by
  have hunits : 0 < units y := by
    rw [Nat.pos_iff_ne_zero, ← units_of_lt (show 0 < binade by decide)]
    exact units_strictMono.injective.ne hpos.ne'
  rw [ofRank_of_lt false hx, ofRank_of_lt false hy]
  refine ⟨nearestRank (units x <<< unitExponent) (units y), ?_, ?_⟩
  · change div _ _ = _
    rw [div, if_neg hpos.ne']
    rfl
  have hnearest := isNearestRank_nearestRank (units x <<< unitExponent) hunits
  have hquotient : ((units x <<< unitExponent : Nat) / units y : ℚ) =
      absValue x / absValue y * 2 ^ unitExponent := by
    have hne : (units y : ℚ) ≠ 0 := by exact_mod_cast hunits.ne'
    rw [Nat.shiftLeft_eq, Nat.cast_mul, absValue, absValue]
    push_cast
    field_simp
  rwa [hquotient] at hnearest

/-- Values that round to magnitudes are within one part in `2 ^ 53 + 1` of them. -/
theorem mul_abs_sub_absValue_le {value : ℚ} {rank : Nat}
    (hnearest : IsNearestRank (value * 2 ^ unitExponent) rank)
    (hlarge : 2 ^ 52 ≤ value * 2 ^ unitExponent) :
    (2 ^ 53 + 1) * |value - absValue rank| ≤ value := by
  rw [abs_sub_absValue, ← mul_div_assoc, div_le_iff₀ (by positivity)]
  exact hnearest.mul_abs_sub_le hlarge

/-- Two errors of less than one part in `2 ^ 53` make at most one part in `2 ^ 52` in a product. -/
theorem mul_abs_mul_sub_le {x y x' y' : ℚ} (hx : (2 ^ 53 + 1) * |x - x'| ≤ x)
    (hy : (2 ^ 53 + 1) * |y - y'| ≤ y) : 2 ^ 52 * |x' * y' - x * y| ≤ x * y := by
  have hxpos : 0 ≤ x := le_trans (by positivity) hx
  have hypos : 0 ≤ y := le_trans (by positivity) hy
  have hsplit : |x' * y' - x * y| ≤ |x - x'| * y + x * |y - y'| + |x - x'| * |y - y'| := by
    have hsum : x' * y' - x * y = -(x - x') * y + (-(x * (y - y')) + (x - x') * (y - y')) := by ring
    rw [hsum, add_assoc]
    refine (abs_add_le _ _).trans (add_le_add ?_ ((abs_add_le _ _).trans (add_le_add ?_ ?_)))
    · rw [abs_mul, abs_neg, abs_of_nonneg hypos]
    · rw [abs_neg, abs_mul, abs_of_nonneg hxpos]
    · rw [abs_mul]
  have hfirst := mul_le_mul_of_nonneg_right hx hypos
  have hsecond := mul_le_mul_of_nonneg_left hy hxpos
  have hboth := mul_le_mul hx hy (by positivity) hxpos
  have hproduct := mul_nonneg hxpos hypos
  generalize |x - x'| = a at *
  generalize |y - y'| = b at *
  linarith

/-- Two errors of less than one part in `2 ^ 53` make at most one part in `2 ^ 52` in a
quotient. -/
theorem mul_abs_div_sub_le {x y x' y' : ℚ} (hx : (2 ^ 53 + 1) * |x - x'| ≤ x)
    (hy : (2 ^ 53 + 1) * |y - y'| ≤ y) (hpos : 0 < y) :
    2 ^ 52 * |x' / y' - x / y| ≤ x / y := by
  have hxpos : 0 ≤ x := le_trans (by positivity) hx
  have hlow : y - |y - y'| ≤ y' := by linarith [le_abs_self (y - y')]
  have hpos' : 0 < y' := by linarith
  have hdifference : x' / y' - x / y = (-(x - x') * y + x * (y - y')) / (y' * y) := by
    field_simp
    ring
  have hquotient : x / y = x * y' / (y' * y) := by
    field_simp
  have hsplit : |-(x - x') * y + x * (y - y')| ≤ |x - x'| * y + x * |y - y'| := by
    refine (abs_add_le _ _).trans (add_le_add ?_ ?_)
    · rw [abs_mul, abs_neg, abs_of_pos hpos]
    · rw [abs_mul, abs_of_nonneg hxpos]
  have hfirst := mul_le_mul_of_nonneg_right hx hpos.le
  have hsecond := mul_le_mul_of_nonneg_left hy hxpos
  have hwhole := mul_le_mul_of_nonneg_left hlow hxpos
  rw [hdifference, hquotient, abs_div, abs_of_pos (mul_pos hpos' hpos), ← mul_div_assoc]
  apply div_le_div_of_nonneg_right _ (mul_pos hpos' hpos).le
  linarith

end Keypad.Binary64
