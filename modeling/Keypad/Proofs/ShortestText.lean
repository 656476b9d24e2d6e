import Keypad.Proofs.Decimal.Closest
import Keypad.Proofs.NumberText

/-!
# No text says it with fewer digits

A number's text is a numeral of the same value as the shortest decimal of the number.  A numeral
that is read as the same number has the same sign, and its magnitude reads back.  So it has no fewer
digits than the text, and if it has as many then it is no nearer to the number.
-/

namespace Keypad

/-- The number of a sign and an absolute value. -/
def signed (negative : Bool) (magnitude : ℚ) : ℚ := if negative then -magnitude else magnitude

theorem abs_signed_sub (negative : Bool) (x y : ℚ) :
    |signed negative x - signed negative y| = |x - y| := by
  cases negative with
  | false => rfl
  | true =>
      rw [signed, signed, if_pos rfl, if_pos rfl, neg_sub_neg]
      exact abs_sub_comm y x

namespace Numeral

/-- The exact value of a numeral. -/
def value (n : Numeral) : ℚ := signed n.negative n.magnitude.value

/-- How many digits a numeral has, zeros before and behind the others aside. -/
def significantDigits (n : Numeral) : Nat := n.magnitude.significantDigits

theorem eq_of_toBinary64 {n : Numeral} {negative : Bool} {magnitude : Fin Binary64.finiteCount}
    (hread : n.toBinary64 = .finite negative magnitude) :
    n.negative = negative ∧ n.magnitude.rank = magnitude := by
  rw [← Binary64.ofRank_of_lt negative magnitude.isLt] at hread
  exact (Binary64.ofRank_eq_iff magnitude.isLt).mp hread

end Numeral

namespace Binary64

/-- The exact value of a finite number. -/
def value : Binary64 → ℚ
  | .finite negative magnitude => signed negative (absValue magnitude)
  | _ => 0

/-- A number is shown with the fewest digits that are read as it, and by the nearest numeral with as
many. -/
theorem toText_fewest_and_nearest {x : Binary64} (hfinite : x.isFinite = true)
    (hzero : x.isZero = false) :
    ofText x.toText = x ∧
      ∃ shown : Numeral, Numeral.ofChars? x.toText.toList = some shown ∧ shown.toBinary64 = x ∧
        ∀ n : Numeral, n.toBinary64 = x →
          shown.significantDigits ≤ n.significantDigits ∧
            (n.significantDigits = shown.significantDigits →
              |shown.value - x.value| ≤ |n.value - x.value|) := by
  cases x with
  | nan => cases hfinite
  | infinity negative => cases hfinite
  | finite negative magnitude =>
      have hne : magnitude.val ≠ 0 := by simpa [isZero] using hzero
      have hpos := Nat.pos_of_ne_zero hne
      have hshortest := Decimal.isShortest_shortest hpos magnitude.isLt
      obtain ⟨d, hnumeral, hvalue⟩ := exists_ofChars?_magnitudeText negative magnitude
      have hdigits : d.significantDigits = (Decimal.shortest .up magnitude).significantDigits :=
        (Decimal.significantDigits_congr hshortest.normal.coefficient_pos hvalue.symm).symm
      have hback : d.toBinary64 negative = .finite negative magnitude := by
        rw [Decimal.toBinary64_congr negative hvalue, Decimal.toBinary64_shortest]
        exact ofRank_of_lt negative magnitude.isLt
      refine ⟨by rw [ofText_toText_finite, if_neg hne], ⟨negative, d⟩, ?_, hback, ?_⟩
      · rw [toText, String.toList_ofList, toChars_finite, if_neg hne, hnumeral]
      · intro n hread
        obtain ⟨hnegative, hrank⟩ := Numeral.eq_of_toBinary64 hread
        rw [Numeral.significantDigits, Numeral.significantDigits, Numeral.value, Numeral.value,
          value, hnegative, abs_signed_sub, abs_signed_sub, hdigits, hvalue]
        exact ⟨hshortest.fewest _ hrank, hshortest.nearest _ hrank⟩

/-- The smallest positive number is shown as `5e-324`, and no numeral of one digit that is read as
it is nearer. -/
theorem toText_fewest_and_nearest_smallest :
    (ofBits 1).isFinite = true ∧ (ofBits 1).isZero = false ∧ (ofBits 1).toText = "5e-324" ∧
      ∀ n : Numeral, n.toBinary64 = ofBits 1 → n.significantDigits = 1 →
        |Numeral.value ⟨false, 5, -324⟩ - (ofBits 1).value| ≤ |n.value - (ofBits 1).value| := by
  have hfinite : (ofBits 1).isFinite = true := by decide +kernel
  have hzero : (ofBits 1).isZero = false := by decide +kernel
  have hshown : Numeral.ofChars? (ofBits 1).toText.toList = some ⟨false, 5, -324⟩ := by
    decide +kernel
  have hdigits : Numeral.significantDigits ⟨false, 5, -324⟩ = 1 := by decide +kernel
  refine ⟨hfinite, hzero, by decide +kernel, ?_⟩
  obtain ⟨-, shown, hnumeral, -, hshortest⟩ := toText_fewest_and_nearest hfinite hzero
  obtain rfl := Option.some.inj (hshown.symm.trans hnumeral)
  intro n hread hone
  exact (hshortest n hread).2 (hone.trans hdigits.symm)

end Binary64

end Keypad
