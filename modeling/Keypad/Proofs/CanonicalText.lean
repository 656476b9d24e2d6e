import Keypad.Proofs.Decimal.Grammar
import Keypad.Proofs.ShortestText

/-!
# The canonical text of a number

The canonical text depends on two things only, the digits of the shortest decimal and the place of
the first one: between the places of a millionth and of `10 ^ 20` it is plain, and elsewhere it has
an exponent.  The choice is made without the digits, by the rank of the magnitude.  It is the same
choice because rounding keeps the order: a magnitude is at or above the number nearest to a power of
ten exactly if its shortest decimal starts at or before the place of that power.
-/

namespace Keypad

namespace Decimal

/-! ## The canonical layout -/

/-- Digits in plain notation, the first of them at a place: with zeros up to the point where they
end before it, with the point among them, or behind a zero, the point and the zeros after it. -/
def plainText (digits : List Char) (place : Int) : List Char :=
  if place < 0 then
    '0' :: '.' :: (zeros (-place - 1).toNat ++ digits)
  else
    let whole := place.toNat + 1
    if digits.length ≤ whole then digits ++ zeros (whole - digits.length)
    else digits.take whole ++ '.' :: digits.drop whole

/-- Digits with an exponent: the first of them, the others behind a point if there are any, and the
place of the first with its sign. -/
def exponentForm (digits : List Char) (place : Int) : List Char :=
  digits.take 1 ++ (Numeral.fractionText (digits.drop 1) ++ Numeral.exponentText place)

/-- The canonical text of digits of which the first stands at a place. -/
def canonicalText (digits : List Char) (place : Int) : List Char :=
  if -6 ≤ place ∧ place ≤ 20 then plainText digits place else exponentForm digits place

/-- Whether the digits before and behind a point are without idle zeros: before the point there is a
single zero if the number is below one, and no zero in front otherwise, and behind the point there is
no zero at the end. -/
structure IsPlain (belowOne : Prop) (whole fraction : List Char) : Prop where
  whole_isDigits : Numeral.IsDigits whole
  fraction_isDigits : Numeral.IsDigits fraction
  whole_ne_nil : whole ≠ []
  whole_of_below : belowOne → whole = ['0']
  head?_whole : ¬belowOne → whole.head? ≠ some '0'
  getLast?_fraction : fraction.getLast? ≠ some '0'

theorem isDigits_zeros (count : Nat) : Numeral.IsDigits (zeros count) :=
  fun _ => isDigit_of_mem_zeros

/-- Plain notation has no idle zeros, and no point if there is nothing behind it. -/
theorem exists_isPlain {digits : List Char} (hdigits : Numeral.IsDigits digits)
    (hne : digits ≠ []) (hhead : digits.head? ≠ some '0') (hlast : digits.getLast? ≠ some '0')
    (place : Int) :
    ∃ whole fraction, plainText digits place = whole ++ Numeral.fractionText fraction ∧
      IsPlain (place < 0) whole fraction := by
  rw [plainText]
  split
  · next hneg =>
      have hfraction : zeros (-place - 1).toNat ++ digits ≠ [] := by simp [hne]
      refine ⟨['0'], zeros (-place - 1).toNat ++ digits, ?_, ?_⟩
      · rw [Numeral.fractionText_of_ne_nil hfraction]
        rfl
      · exact {
          whole_isDigits := isDigits_zeros 1
          fraction_isDigits := List.forall_mem_append.mpr ⟨isDigits_zeros _, hdigits⟩
          whole_ne_nil := List.cons_ne_nil _ _
          whole_of_below := fun _ => rfl
          head?_whole := absurd hneg
          getLast?_fraction := by rwa [List.getLast?_append_of_ne_nil _ hne] }
  · next hpos =>
      dsimp only
      split
      · refine ⟨digits ++ zeros _, [], (List.append_nil _).symm, ?_⟩
        exact {
          whole_isDigits := List.forall_mem_append.mpr ⟨hdigits, isDigits_zeros _⟩
          fraction_isDigits := Numeral.isDigits_nil
          whole_ne_nil := List.append_ne_nil_of_left_ne_nil hne _
          whole_of_below := fun hneg => absurd hneg hpos
          head?_whole := fun _ => by rwa [List.head?_append_of_ne_nil _ hne]
          getLast?_fraction := by decide }
      · next hlong =>
          have hfraction : digits.drop (place.toNat + 1) ≠ [] := by
            rw [ne_eq, List.drop_eq_nil_iff]
            exact hlong
          refine ⟨digits.take (place.toNat + 1), digits.drop (place.toNat + 1), ?_, ?_⟩
          · rw [Numeral.fractionText_of_ne_nil hfraction]
          · exact {
              whole_isDigits := fun c hc => hdigits c (List.mem_of_mem_take hc)
              fraction_isDigits := fun c hc => hdigits c (List.mem_of_mem_drop hc)
              whole_ne_nil := by simp [hne]
              whole_of_below := fun hneg => absurd hneg hpos
              head?_whole := fun _ => by rwa [List.head?_take, if_neg (Nat.succ_ne_zero _)]
              getLast?_fraction := by rwa [List.getLast?_drop, if_neg hlong] }

/-! ## The two notations as layouts -/

theorem positional_eq (d : Decimal) : d.positional = plainText d.digits d.leadingExponent := by
  have hlength := List.length_pos_iff.mpr d.digits_ne_nil
  rw [positional, plainText, leadingExponent]
  split
  · have hzeros : (d.exponent + d.digits.length - 1).toNat + 1 - d.digits.length =
        d.exponent.toNat := by omega
    rw [if_neg (by omega), if_pos (by omega), hzeros]
  · dsimp only
    split
    · have hwhole : (d.exponent + d.digits.length - 1).toNat + 1 =
          d.digits.length - (-d.exponent).toNat := by omega
      rw [if_neg (by omega), if_neg (by omega), hwhole]
    · have hzeros : (-(d.exponent + d.digits.length - 1) - 1).toNat =
          (-d.exponent).toNat - d.digits.length := by omega
      rw [if_pos (by omega), hzeros]

theorem scientific_eq_exponentForm (d : Decimal) :
    d.scientific = exponentForm d.digits d.leadingExponent := by
  obtain ⟨first, rest, hdigits⟩ := List.exists_cons_of_ne_nil d.digits_ne_nil
  rw [scientific_eq hdigits, exponentForm, hdigits]
  rfl

/-! ## The place of the first digit -/

/-- The first digit of a positive decimal stands where its value does among the powers of ten. -/
theorem value_leadingExponent {d : Decimal} (hpos : 0 < d.coefficient) :
    (10 : ℚ) ^ d.leadingExponent ≤ d.value ∧ d.value < 10 ^ (d.leadingExponent + 1) := by
  have hlength : ∃ more, d.digits.length = more + 1 :=
    Nat.exists_eq_succ_of_ne_zero (List.length_pos_iff.mpr d.digits_ne_nil).ne'
  obtain ⟨more, hmore⟩ := hlength
  have hplace : d.leadingExponent = more + d.exponent := by
    rw [leadingExponent, hmore]
    omega
  have hlow : 10 ^ more ≤ d.coefficient := by
    cases more with
    | zero => exact hpos
    | succ more =>
        by_contra hlt
        have hshort := (length_digits_le_iff (Nat.succ_pos more)).mpr (Nat.not_le.mp hlt)
        omega
  have hhigh : d.coefficient < 10 ^ (more + 1) :=
    (length_digits_le_iff (Nat.succ_pos more)).mp hmore.le
  have hten : (0 : ℚ) < 10 ^ d.exponent := by positivity
  rw [hplace, add_right_comm, zpow_add₀ (by norm_num), zpow_add₀ (by norm_num), ← Nat.cast_succ,
    zpow_natCast, zpow_natCast, value]
  constructor
  · refine mul_le_mul_of_nonneg_right ?_ hten.le
    exact_mod_cast hlow
  · refine mul_lt_mul_of_pos_right ?_ hten
    exact_mod_cast hhigh

/-- Comparing a magnitude with the number nearest to a power of ten compares the place of its first
digit with that of the power. -/
theorem rank_le_iff_le_leadingExponent {rank : Nat} {place : Int} (hpos : 0 < rank)
    (hfinite : rank < Binary64.finiteCount)
    (hpower : shortest .up (Decimal.rank ⟨1, place⟩) = ⟨1, place⟩) :
    Decimal.rank ⟨1, place⟩ ≤ rank ↔ place ≤ (shortest .up rank).leadingExponent := by
  have hshortest := isShortest_shortest hpos hfinite
  obtain ⟨hlow, hhigh⟩ := value_leadingExponent hshortest.normal.coefficient_pos
  have hten : (1 : ℚ) ≤ 10 := by norm_num
  constructor
  · intro hle
    by_contra hlt
    -- The decimal is below the power, so the two can have no rank but the same, and then they are
    -- the same decimal.
    have hbelow : (shortest .up rank).value < value ⟨1, place⟩ := by
      rw [value_one]
      exact hhigh.trans_le (zpow_le_zpow_right₀ hten (by omega))
    have hback := rank_mono (hle.trans_lt hfinite) hbelow.le
    rw [hshortest.rank_eq] at hback
    rw [le_antisymm hle hback] at hpower
    rw [hpower] at hbelow
    exact lt_irrefl _ hbelow
  · intro hle
    have habove : value ⟨1, place⟩ ≤ (shortest .up rank).value := by
      rw [value_one]
      exact (zpow_le_zpow_right₀ hten hle).trans hlow
    have hback := rank_mono (hshortest.rank_eq.symm ▸ hfinite) habove
    rwa [hshortest.rank_eq] at hback

/-! ## The first and the last digit -/

theorem head?_digits_ne_zero {d : Decimal} (hnormal : d.IsNormal) :
    d.digits.head? ≠ some '0' :=
  head?_toDigits_ne_zero hnormal.coefficient_pos

theorem getLast?_toDigits (n : Nat) :
    (Nat.toDigits 10 n).getLast? = some (Nat.digitChar (n % 10)) := by
  rcases Nat.lt_or_ge n 10 with hsmall | hlarge
  · rw [Nat.toDigits_of_lt_base hsmall, Nat.mod_eq_of_lt hsmall]
    rfl
  · rw [Nat.toDigits_of_base_le (by decide) hlarge, List.getLast?_concat]

theorem getLast?_digits_ne_zero {d : Decimal} (hnormal : d.IsNormal) :
    d.digits.getLast? ≠ some '0' := by
  have hdigit : ∀ n < 10, n ≠ 0 → Nat.digitChar n ≠ '0' := by decide
  rw [digits, getLast?_toDigits, ne_eq, Option.some_inj]
  exact hdigit _ (Nat.mod_lt _ (by decide)) hnormal

end Decimal

namespace Binary64

open Decimal (shortest)

/-! ## The canonical text -/

theorem absValue_lt_one_iff {rank : Nat} (hpos : 0 < rank) (hfinite : rank < finiteCount) :
    absValue rank < 1 ↔ (shortest .up rank).leadingExponent < 0 := by
  have hone : absValue (Decimal.rank ⟨1, 0⟩) = 1 := by
    have hunits : units (Decimal.rank ⟨1, 0⟩) = 2 ^ unitExponent := by decide +kernel
    rw [absValue, hunits, Nat.cast_pow, Nat.cast_ofNat]
    exact div_self (by positivity)
  have hpower : shortest .up (Decimal.rank ⟨1, 0⟩) = ⟨1, 0⟩ := by decide +kernel
  have hplace := Decimal.rank_le_iff_le_leadingExponent hpos hfinite hpower
  rw [← hone, absValue_strictMono.lt_iff_lt, ← Nat.not_le, hplace, Int.not_le]

/-- The ranks that are shown in plain notation are those whose first digit is at a place from that
of a millionth up to that of `10 ^ 20`. -/
theorem positionalFrom_le_and_lt_iff {rank : Nat} (hpos : 0 < rank) (hfinite : rank < finiteCount) :
    positionalFrom ≤ rank ∧ rank < positionalBelow ↔
      -6 ≤ (shortest .up rank).leadingExponent ∧ (shortest .up rank).leadingExponent ≤ 20 := by
  have hfrom : shortest .up (Decimal.rank ⟨1, -6⟩) = ⟨1, -6⟩ := by decide +kernel
  have hbelow : shortest .up (Decimal.rank ⟨1, 21⟩) = ⟨1, 21⟩ := by decide +kernel
  rw [positionalFrom, positionalBelow, ← Nat.not_le,
    Decimal.rank_le_iff_le_leadingExponent hpos hfinite hfrom,
    Decimal.rank_le_iff_le_leadingExponent hpos hfinite hbelow]
  omega

theorem magnitudeText_eq_canonicalText {rank : Nat} (hpos : 0 < rank)
    (hfinite : rank < finiteCount) :
    magnitudeText rank =
      Decimal.canonicalText (shortest .up rank).digits (shortest .up rank).leadingExponent := by
  have hchoice := positionalFrom_le_and_lt_iff hpos hfinite
  simp only [magnitudeText, Decimal.canonicalText, Bool.and_eq_true, decide_eq_true_eq, hchoice,
    Decimal.positional_eq, Decimal.scientific_eq_exponentForm]

theorem value_neg_iff (negative : Bool) {magnitude : Fin finiteCount} (hne : magnitude.val ≠ 0) :
    (finite negative magnitude).value < 0 ↔ negative = true := by
  have hpos := absValue_pos (Nat.pos_of_ne_zero hne)
  cases negative <;> simp [value, signed, hpos, hpos.le]

theorem abs_value (negative : Bool) (magnitude : Fin finiteCount) :
    |(finite negative magnitude).value| = absValue magnitude := by
  have hnonneg : 0 ≤ absValue magnitude := by
    rw [absValue]
    positivity
  cases negative <;> simp [value, signed, abs_of_nonneg hnonneg]

/-- A finite number is shown in the canonical form: a zero as `0`, and any other number by its sign
and the canonical layout of its shortest digits.  Comparing the number with the two bounds chooses
the notation that its digits choose. -/
theorem toText_finite_canonical (negative : Bool) (magnitude : Fin finiteCount) :
    let x := finite negative magnitude
    (magnitude.val = 0 → x.toText = "0") ∧
      (magnitude.val ≠ 0 → ∃ d : Decimal, (∀ d', Decimal.IsShortest magnitude d' ↔ d' = d) ∧
        let place := d.leadingExponent
        d.digits.head? ≠ some '0' ∧ d.digits.getLast? ≠ some '0' ∧
          x.toText = .ofList (Numeral.signText (decide (x.value < 0)) ++
            Decimal.canonicalText d.digits place) ∧
          (positionalFrom ≤ magnitude ∧ magnitude < positionalBelow ↔ -6 ≤ place ∧ place ≤ 20) ∧
          (-6 ≤ place ∧ place ≤ 20 → ∃ whole fraction,
            Decimal.canonicalText d.digits place = whole ++ Numeral.fractionText fraction ∧
              Decimal.IsPlain (|x.value| < 1) whole fraction) ∧
          (¬(-6 ≤ place ∧ place ≤ 20) → (Nat.toDigits 10 place.natAbs).head? ≠ some '0')) := by
  intro x
  constructor
  · intro hzero
    rw [toText, toChars_finite, if_pos hzero]
  · intro hne
    have hpos := Nat.pos_of_ne_zero hne
    have hnormal := Decimal.isNormal_shortest .up hpos magnitude.isLt
    have hhead := Decimal.head?_digits_ne_zero hnormal
    have hlast := Decimal.getLast?_digits_ne_zero hnormal
    refine ⟨shortest .up magnitude, fun d' => Decimal.isShortest_iff hpos magnitude.isLt, hhead,
      hlast, ?_, positionalFrom_le_and_lt_iff hpos magnitude.isLt, ?_, ?_⟩
    · rw [toText, toChars_finite, if_neg hne, magnitudeText_eq_canonicalText hpos magnitude.isLt]
      simp only [x, value_neg_iff negative hne, Bool.decide_eq_true]
    · intro hplain
      rw [Decimal.canonicalText, if_pos hplain, abs_value,
        propext (absValue_lt_one_iff hpos magnitude.isLt)]
      exact Decimal.exists_isPlain (fun c => Decimal.isDigit_of_mem_digits)
        (Decimal.digits_ne_nil _) hhead hlast _
    · intro hplace
      apply Decimal.head?_toDigits_ne_zero
      omega

/-- The last number below the upper bound is shown without an exponent, and the bound with one. -/
example : (ofBits 0x444B1AE4D6E2EF4F).toText = "999999999999999900000" ∧
    (ofBits 0x444B1AE4D6E2EF50).toText = "1e+21" := by decide +kernel

end Binary64

end Keypad
