import Keypad.Proofs.Binary64.Rounding
import Mathlib.Algebra.Order.Field.Rat
import Mathlib.Algebra.Order.Ring.Abs
import Mathlib.Order.Monotone.Basic
import Mathlib.Tactic.FieldSimp
import Mathlib.Tactic.Linarith
import Mathlib.Tactic.Positivity
import Mathlib.Tactic.Ring

/-!
# The nearest number

Ranks count the magnitudes in order, and a binade's ranks stand for equally spaced numbers of
units.  So a quotient lies between the magnitudes of two successive ranks, and rounding it to
spacings picks the nearer of the two, or the even one half-way.  No magnitude further away comes
into question.  Past half a spacing above the largest finite number the rank is no longer finite.
-/

namespace Keypad.Binary64

/-! ## Magnitudes in order -/

/-- The units of a rank that is some spacings into the binade with that spacing; the first binade
of the next spacing counts as well. -/
theorem units_spacings {shift count : Nat} (hshift : shift = 0 ∨ binade ≤ count)
    (hcount : count ≤ 2 * binade) : units (shift * binade + count) = count * 2 ^ shift := by
  have hpos : 0 < binade := by decide
  by_cases hlow : count < binade
  · obtain rfl : shift = 0 := hshift.resolve_right (Nat.not_le.mpr hlow)
    rw [Nat.zero_mul, Nat.zero_add, units_of_lt hlow, Nat.pow_zero, Nat.mul_one]
  obtain ⟨offset, rfl⟩ := Nat.exists_eq_add_of_le (Nat.not_lt.mp hlow)
  have hrank : shift * binade + (binade + offset) = offset + binade * (shift + 1) := by ring
  rw [units_of_le (by omega), hrank, Nat.add_mul_mod_self_left, Nat.add_mul_div_left _ _ hpos]
  by_cases hoffset : offset < binade
  · rw [Nat.mod_eq_of_lt hoffset, Nat.div_eq_of_lt hoffset, Nat.zero_add, Nat.add_sub_cancel]
  · obtain rfl : offset = binade := by omega
    rw [Nat.mod_self, Nat.div_self hpos, Nat.add_sub_cancel_left, Nat.pow_succ]
    ring

/-- Every rank is some spacings into a binade. -/
theorem exists_spacings (rank : Nat) :
    ∃ shift count, rank = shift * binade + count ∧ (shift = 0 ∨ binade ≤ count) ∧
      count < 2 * binade := by
  have hpos : 0 < binade := by decide
  have hmod := Nat.mod_lt rank hpos
  have hsplit := Nat.div_add_mod' rank binade
  by_cases hfirst : rank / binade = 0
  · refine ⟨0, rank, by omega, Or.inl rfl, ?_⟩
    rw [hfirst] at hsplit
    omega
  · obtain ⟨shift, hshift⟩ := Nat.exists_eq_succ_of_ne_zero hfirst
    refine ⟨shift, binade + rank % binade, ?_, Or.inr (Nat.le_add_right _ _), by omega⟩
    rw [hshift, Nat.succ_mul] at hsplit
    omega

theorem units_lt_succ (rank : Nat) : units rank < units (rank + 1) := by
  obtain ⟨shift, count, rfl, hshift, hcount⟩ := exists_spacings rank
  have hnext : shift = 0 ∨ binade ≤ count + 1 := hshift.imp_right Nat.le_succ_of_le
  rw [Nat.add_assoc, units_spacings hshift hcount.le, units_spacings hnext hcount,
    Nat.mul_lt_mul_right (Nat.two_pow_pos shift)]
  exact Nat.lt_succ_self count

theorem units_strictMono : StrictMono units := strictMono_nat_of_lt_succ units_lt_succ

/-! ## The nearest rank -/

/-- Whether the magnitude of a rank is the nearest to a number of units: every other one is
further away, or just as far and then the rank is even.  Exponents have no upper limit here. -/
def IsNearestRank (q : ℚ) (rank : Nat) : Prop :=
  ∀ other ≠ rank, |q - units rank| < |q - units other| ∨
    |q - units rank| = |q - units other| ∧ Even rank

/-- A magnitude is the nearest to itself. -/
theorem isNearestRank_units (rank : Nat) : IsNearestRank (units rank) rank := by
  intro other hother
  left
  have hne : (units rank : ℚ) - units other ≠ 0 := by
    rw [sub_ne_zero]
    exact_mod_cast units_strictMono.injective.ne hother.symm
  rw [sub_self, abs_zero]
  exact abs_pos.mpr hne

/-- Of the two magnitudes around a number the nearer one is the nearest of all. -/
theorem isNearestRank_of_between {q : ℚ} {low rank : Nat} (hlow : (units low : ℚ) ≤ q)
    (hhigh : q < units (low + 1))
    (hnear : rank = low ∧ 2 * q ≤ units low + units (low + 1) ∨
      rank = low + 1 ∧ (units low + units (low + 1) : ℚ) ≤ 2 * q)
    (heven : 2 * q = units low + units (low + 1) → Even rank) : IsNearestRank q rank := by
  intro other hother
  rcases hnear with ⟨rfl, hnear⟩ | ⟨rfl, hnear⟩
  · have hself : |q - units rank| = q - units rank := abs_of_nonneg (by linarith)
    rcases Nat.lt_or_gt_of_ne hother with hbelow | habove
    · have hlt : (units other : ℚ) < units rank := by exact_mod_cast units_strictMono hbelow
      left
      rw [hself, abs_of_nonneg (by linarith)]
      linarith
    · have hle : (units (rank + 1) : ℚ) ≤ units other := by
        exact_mod_cast units_strictMono.monotone habove
      have hdistance : |q - units other| = units other - q := by
        rw [abs_sub_comm, abs_of_nonneg (by linarith)]
      rw [hself, hdistance]
      rcases (show q - units rank ≤ units other - q by linarith).lt_or_eq with hlt | heq
      · exact Or.inl hlt
      · exact Or.inr ⟨heq, heven (by linarith)⟩
  · have hself : |q - units (low + 1)| = units (low + 1) - q := by
      rw [abs_sub_comm, abs_of_nonneg (by linarith)]
    rcases Nat.lt_or_gt_of_ne hother with hbelow | habove
    · have hle : (units other : ℚ) ≤ units low := by
        exact_mod_cast units_strictMono.monotone (Nat.le_of_lt_succ hbelow)
      have hdistance : |q - units other| = q - units other := abs_of_nonneg (by linarith)
      rw [hself, hdistance]
      rcases (show units (low + 1) - q ≤ q - units other by linarith).lt_or_eq with hlt | heq
      · exact Or.inl hlt
      · exact Or.inr ⟨heq, heven (by linarith)⟩
    · have hlt : (units (low + 1) : ℚ) < units other := by exact_mod_cast units_strictMono habove
      left
      rw [hself, abs_sub_comm, abs_of_nonneg (by linarith)]
      linarith

/-- Rounding to a whole number takes the nearer neighbour, and the even one half-way. -/
theorem divideTiesEven_cases (numerator denominator : Nat) :
    (divideTiesEven numerator denominator = numerator / denominator ∧
        2 * (numerator % denominator) ≤ denominator ∨
      divideTiesEven numerator denominator = numerator / denominator + 1 ∧
        denominator ≤ 2 * (numerator % denominator)) ∧
      (2 * (numerator % denominator) = denominator →
        Even (divideTiesEven numerator denominator)) := by
  simp only [divideTiesEven, Nat.even_iff]
  split
  · omega
  · split <;> omega

/-- The spacing is chosen so that a quotient is a number of spacings into the binade with that
spacing. -/
theorem spacings_of_quotient {numerator denominator shift : Nat}
    (hshift : shift = (numerator / denominator).log2 - 52) :
    (shift = 0 ∨ binade ≤ numerator / (denominator <<< shift)) ∧
      numerator / (denominator <<< shift) < 2 * binade := by
  have hdouble : 2 * binade = 2 ^ 53 := by rfl
  rw [Nat.shiftLeft_eq, ← Nat.div_div_eq_div_mul, hdouble, binade_eq]
  generalize numerator / denominator = quotient at *
  have hupper : quotient < 2 ^ (quotient.log2 + 1) := Nat.lt_log2_self
  by_cases hsmall : quotient.log2 ≤ 52
  · obtain rfl : shift = 0 := by omega
    rw [Nat.pow_zero, Nat.div_one]
    exact ⟨Or.inl rfl, hupper.trans_le (Nat.pow_le_pow_right (by decide) (by omega))⟩
  · have hne : quotient ≠ 0 := by
      rintro rfl
      exact hsmall (by decide)
    have hlog : quotient.log2 = 52 + shift := by omega
    have hlower : 2 ^ quotient.log2 ≤ quotient := Nat.log2_self_le hne
    rw [hlog] at hlower hupper
    constructor
    · right
      rwa [Nat.le_div_iff_mul_le (Nat.two_pow_pos shift), ← Nat.pow_add]
    · have hexponent : 53 + shift = 52 + shift + 1 := by omega
      rwa [Nat.div_lt_iff_lt_mul (Nat.two_pow_pos shift), ← Nat.pow_add, hexponent]

/-- A quotient as a whole number of spacings and what is left of it. -/
theorem quotient_eq_spacings (numerator : Nat) {denominator : Nat} (hpos : 0 < denominator)
    (shift : Nat) :
    (numerator / denominator : ℚ) = (numerator / (denominator <<< shift) : Nat) * 2 ^ shift +
      (numerator % (denominator <<< shift) : Nat) / denominator := by
  have hsplit := Nat.div_add_mod numerator (denominator <<< shift)
  generalize numerator / (denominator <<< shift) = count at *
  generalize numerator % (denominator <<< shift) = rest at *
  have hne : (denominator : ℚ) ≠ 0 := by exact_mod_cast hpos.ne'
  have hnumerator : (numerator : ℚ) = denominator * 2 ^ shift * count + rest := by
    rw [← hsplit, Nat.shiftLeft_eq]
    push_cast
    ring
  rw [hnumerator]
  field_simp

/-- A whole number of spacings and a part of one, rounded to spacings, give the nearest rank. -/
theorem isNearestRank_spacings {shift count rounded : Nat} {part : ℚ}
    (hshift : shift = 0 ∨ binade ≤ count) (hcount : count < 2 * binade) (hpos : 0 ≤ part)
    (hlt : part < 2 ^ shift)
    (hnear : rounded = count ∧ 2 * part ≤ 2 ^ shift ∨
      rounded = count + 1 ∧ 2 ^ shift ≤ 2 * part)
    (heven : 2 * part = 2 ^ shift → Even rounded) :
    IsNearestRank (count * 2 ^ shift + part) (shift * binade + rounded) := by
  have hlow : (units (shift * binade + count) : ℚ) = count * 2 ^ shift := by
    rw [units_spacings hshift hcount.le]
    push_cast
    rfl
  have hhigh : (units (shift * binade + count + 1) : ℚ) = count * 2 ^ shift + 2 ^ shift := by
    rw [Nat.add_assoc, units_spacings (hshift.imp_right Nat.le_succ_of_le) hcount]
    push_cast
    ring
  refine @isNearestRank_of_between _ (shift * binade + count) _ ?_ ?_ ?_ ?_
  · rw [hlow]
    linarith
  · rw [hhigh]
    linarith
  · rw [hlow, hhigh]
    rcases hnear with ⟨rfl, hnear⟩ | ⟨rfl, hnear⟩
    · exact Or.inl ⟨rfl, by linarith⟩
    · exact Or.inr ⟨(Nat.add_assoc _ _ _).symm, by linarith⟩
  · intro htie
    rw [hlow, hhigh] at htie
    have hbinade : Even binade := Nat.even_iff.mpr rfl
    exact (hbinade.mul_left shift).add (heven (by linarith))

/-- Rounding gives the nearest rank. -/
theorem isNearestRank_nearestRank (numerator : Nat) {denominator : Nat} (hpos : 0 < denominator) :
    IsNearestRank (numerator / denominator) (nearestRank numerator denominator) := by
  obtain ⟨shift, hshift⟩ : ∃ shift, shift = (numerator / denominator).log2 - 52 := ⟨_, rfl⟩
  obtain ⟨hbinade, hcount⟩ := spacings_of_quotient hshift
  obtain ⟨hnear, heven⟩ := divideTiesEven_cases numerator (denominator <<< shift)
  have hlt : numerator % (denominator <<< shift) < denominator <<< shift :=
    Nat.mod_lt _ (by rw [Nat.shiftLeft_eq]; positivity)
  have hdenominator : (0 : ℚ) < denominator := by exact_mod_cast hpos
  rw [quotient_eq_spacings numerator hpos shift, nearestRank, ← hshift]
  generalize divideTiesEven numerator (denominator <<< shift) = rounded at *
  generalize numerator / (denominator <<< shift) = count at *
  generalize numerator % (denominator <<< shift) = rest at *
  rw [Nat.shiftLeft_eq] at hnear heven hlt
  -- What is left of the quotient compares with the spacing as it does over the denominator.
  apply isNearestRank_spacings hbinade hcount (by positivity)
  · rw [div_lt_iff₀ hdenominator, mul_comm]
    exact_mod_cast hlt
  · rcases hnear with ⟨hrounded, hnear⟩ | ⟨hrounded, hnear⟩
    · refine Or.inl ⟨hrounded, ?_⟩
      rw [← mul_div_assoc, div_le_iff₀ hdenominator, mul_comm (2 ^ shift)]
      exact_mod_cast hnear
    · refine Or.inr ⟨hrounded, ?_⟩
      rw [← mul_div_assoc, le_div_iff₀ hdenominator, mul_comm (2 ^ shift)]
      exact_mod_cast hnear
  · intro htie
    apply heven
    rw [← mul_div_assoc, div_eq_iff hdenominator.ne', mul_comm (2 ^ shift)] at htie
    exact_mod_cast htie

/-! ## The nearest number -/

/-- The absolute value of the finite numbers of a rank. -/
def absValue (rank : Nat) : ℚ := units rank / 2 ^ unitExponent

/-- The least absolute value that rounds to an infinity: half a spacing above the largest finite
number. -/
def overflowFrom : ℚ := 2 ^ 1024 - 2 ^ 970

/-- Whether no finite magnitude is nearer to an absolute value, and none as near unless the
encoding ends in a zero bit. -/
def IsNearestMagnitude (value : ℚ) (magnitude : Fin finiteCount) : Prop :=
  ∀ other ≠ magnitude, |value - absValue magnitude| < |value - absValue other| ∨
    |value - absValue magnitude| = |value - absValue other| ∧ Even magnitude.val

/-- Whether a number of a given sign is the nearest to a given absolute value, which is an
infinity from `overflowFrom` on. -/
def IsNearest (negative : Bool) (value : ℚ) : Binary64 → Prop
  | .nan => False
  | .infinity sign => sign = negative ∧ overflowFrom ≤ value
  | .finite sign magnitude =>
    sign = negative ∧ value < overflowFrom ∧ IsNearestMagnitude value magnitude

theorem two_mul_overflowFrom :
    2 * (overflowFrom * 2 ^ unitExponent) = units (finiteCount - 1) + units finiteCount := by
  have hunits : units (finiteCount - 1) + units finiteCount + 2 * (2 ^ 970 * 2 ^ unitExponent) =
      2 * (2 ^ 1024 * 2 ^ unitExponent) := by decide +kernel
  have hcast := congrArg (Nat.cast : Nat → ℚ) hunits
  rw [Nat.cast_add, Nat.cast_add, Nat.cast_mul, Nat.cast_mul, Nat.cast_mul, Nat.cast_mul,
    Nat.cast_pow, Nat.cast_pow, Nat.cast_pow] at hcast
  rw [overflowFrom, sub_mul, mul_sub, sub_eq_iff_eq_add]
  exact hcast.symm

/-- The nearest rank is finite just below half a spacing above the largest finite number. -/
theorem IsNearestRank.lt_finiteCount_iff {q : ℚ} {rank : Nat} (hnearest : IsNearestRank q rank) :
    rank < finiteCount ↔ q < overflowFrom * 2 ^ unitExponent := by
  have hmiddle := two_mul_overflowFrom
  have hlast : (units (finiteCount - 1) : ℚ) < units finiteCount := by
    exact_mod_cast units_strictMono (show finiteCount - 1 < finiteCount by decide)
  generalize overflowFrom * 2 ^ unitExponent = middle at *
  constructor
  · intro hfinite
    by_contra hover
    have hle : (units rank : ℚ) ≤ units (finiteCount - 1) := by
      exact_mod_cast units_strictMono.monotone (Nat.le_sub_one_of_lt hfinite)
    have hself : |q - units rank| = q - units rank := abs_of_nonneg (by linarith)
    have hother : |q - units finiteCount| ≤ q - units (finiteCount - 1) :=
      abs_le.mpr ⟨by linarith, by linarith⟩
    rcases hnearest finiteCount hfinite.ne' with hlt | ⟨heq, heven⟩
    · linarith
    · -- Half-way the rank would have to be the last finite one, which is odd.
      have hge : units (finiteCount - 1) ≤ units rank := by
        have hcast : (units (finiteCount - 1) : ℚ) ≤ units rank := by linarith
        exact_mod_cast hcast
      have hrank : rank = finiteCount - 1 :=
        Nat.le_antisymm (Nat.le_sub_one_of_lt hfinite) (units_strictMono.le_iff_le.mp hge)
      rw [hrank, Nat.even_iff] at heven
      exact absurd heven (by decide)
  · intro hunder
    by_contra hinfinite
    have hge : (units finiteCount : ℚ) ≤ units rank := by
      exact_mod_cast units_strictMono.monotone (Nat.not_lt.mp hinfinite)
    have hself : |q - units rank| = units rank - q := by
      rw [abs_sub_comm, abs_of_nonneg (by linarith)]
    have hother : |q - units (finiteCount - 1)| < units finiteCount - q :=
      abs_lt.mpr ⟨by linarith, by linarith⟩
    have hne : finiteCount - 1 ≠ rank := by
      rintro rfl
      exact hinfinite (by decide)
    rcases hnearest (finiteCount - 1) hne with hlt | ⟨heq, -⟩
    · linarith
    · linarith

theorem abs_sub_absValue (value : ℚ) (rank : Nat) :
    |value - absValue rank| = |value * 2 ^ unitExponent - units rank| / 2 ^ unitExponent := by
  have hpos : (0 : ℚ) < 2 ^ unitExponent := by positivity
  rw [absValue, eq_div_iff hpos.ne', ← abs_of_pos hpos, ← abs_mul, abs_of_pos hpos, sub_mul,
    div_mul_cancel₀ _ hpos.ne']

/-- The number of the nearest rank is the nearest number. -/
theorem isNearest_ofRank (negative : Bool) {value : ℚ} {rank : Nat}
    (hnearest : IsNearestRank (value * 2 ^ unitExponent) rank) :
    IsNearest negative value (ofRank negative rank) := by
  have hpos : (0 : ℚ) < 2 ^ unitExponent := by positivity
  have hfinite := hnearest.lt_finiteCount_iff
  rw [mul_lt_mul_iff_of_pos_right hpos] at hfinite
  by_cases hlt : rank < finiteCount
  · rw [ofRank_of_lt negative hlt]
    refine ⟨rfl, hfinite.mp hlt, ?_⟩
    intro other hother
    have hne : other.val ≠ rank := fun heq => hother (Fin.ext heq)
    rw [abs_sub_absValue, abs_sub_absValue, div_lt_div_iff_of_pos_right hpos,
      div_left_inj' hpos.ne']
    exact hnearest other hne
  · rw [ofRank_of_le negative (Nat.not_lt.mp hlt)]
    exact ⟨rfl, not_lt.mp (mt hfinite.mpr hlt)⟩

theorem isNearest_absValue (negative : Bool) (rank : Nat) :
    IsNearest negative (absValue rank) (ofRank negative rank) := by
  have hpos : (0 : ℚ) < 2 ^ unitExponent := by positivity
  apply isNearest_ofRank
  rw [absValue, div_mul_cancel₀ _ hpos.ne']
  exact isNearestRank_units rank

theorem absValue_strictMono : StrictMono absValue := by
  intro rank larger hlt
  have hunits : (units rank : ℚ) < units larger := by exact_mod_cast units_strictMono hlt
  exact (div_lt_div_iff_of_pos_right (by positivity)).mpr hunits

/-- Between two numbers that are equally near and both even there is one that is nearer. -/
theorem not_nearest_of_even {value : ℚ} {low high : Fin finiteCount} (hlt : low < high)
    (heven : Even low.val) (heven' : Even high.val)
    (heq : |value - absValue low| = |value - absValue high|) :
    ∃ between ≠ low, |value - absValue between| < |value - absValue low| := by
  have hgap : low.val + 1 < high.val := by
    rcases heven with ⟨half, hhalf⟩
    rcases heven' with ⟨half', hhalf'⟩
    have hval : low.val < high.val := hlt
    omega
  have hlow : absValue low < absValue high := absValue_strictMono hlt
  have hbelow : absValue low < absValue (low.val + 1) := absValue_strictMono (Nat.lt_succ_self _)
  have habove : absValue (low.val + 1) < absValue high := absValue_strictMono hgap
  have hmiddle : value - absValue low = -(value - absValue high) := by
    rcases abs_eq_abs.mp heq with hsame | hopposite
    · linarith
    · exact hopposite
  refine ⟨⟨low.val + 1, hgap.trans high.isLt⟩, ?_, ?_⟩
  · intro hsame
    exact absurd (congrArg Fin.val hsame) (Nat.succ_ne_self _)
  · rw [abs_of_nonneg (show 0 ≤ value - absValue low by linarith)]
    exact abs_lt.mpr ⟨by linarith, by linarith⟩

/-- Of two magnitudes that are both nearest, neither is the smaller. -/
theorem IsNearestMagnitude.not_lt {value : ℚ} {low high : Fin finiteCount}
    (hlow : IsNearestMagnitude value low) (hhigh : IsNearestMagnitude value high) :
    ¬low < high := by
  intro hlt
  rcases hlow high hlt.ne' with hnearer | ⟨heq, heven⟩
  · rcases hhigh low hlt.ne with hnearer' | ⟨heq', -⟩
    · exact lt_asymm hnearer hnearer'
    · exact hnearer.ne' heq'
  · rcases hhigh low hlt.ne with hnearer' | ⟨-, heven'⟩
    · exact hnearer'.ne heq.symm
    · obtain ⟨between, hne, hcloser⟩ := not_nearest_of_even hlt heven heven' heq
      rcases hlow between hne with hfurther | ⟨hsame, -⟩
      · exact lt_asymm hfurther hcloser
      · exact hcloser.ne hsame.symm

/-- At most one number is the nearest. -/
theorem isNearest_unique {negative : Bool} {value : ℚ} {x y : Binary64}
    (hx : IsNearest negative value x) (hy : IsNearest negative value y) : x = y := by
  cases x with
  | nan => exact hx.elim
  | infinity sign =>
      obtain ⟨rfl, hover⟩ := hx
      cases y with
      | nan => exact hy.elim
      | infinity sign' => rw [hy.1]
      | finite sign' magnitude' => exact absurd hover (not_le.mpr hy.2.1)
  | finite sign magnitude =>
      obtain ⟨rfl, hunder, hnearest⟩ := hx
      cases y with
      | nan => exact hy.elim
      | infinity sign' => exact absurd hy.2 (not_le.mpr hunder)
      | finite sign' magnitude' =>
          obtain ⟨rfl, -, hnearest'⟩ := hy
          rw [le_antisymm (not_lt.mp (hnearest'.not_lt hnearest))
            (not_lt.mp (hnearest.not_lt hnearest'))]

end Keypad.Binary64
