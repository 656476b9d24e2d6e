import Keypad.Proofs.CanonicalText

/-!
# How long the text of a number is

Seventeen digits are enough for every number.  Plain notation adds most to them for the smallest
numbers that it is used for, a zero, the point and five more zeros, and an exponent never has more
than three digits.  So with its sign no text is longer than 25 characters.
-/

namespace Keypad

/-! ## The parts of a numeral -/

namespace Numeral

theorem length_signText_le (negative : Bool) : (signText negative).length ≤ 1 := by
  cases negative <;> decide

theorem length_fractionText_le (fraction : List Char) :
    (fractionText fraction).length ≤ fraction.length + 1 := by
  rw [fractionText]
  split
  · exact Nat.zero_le _
  · exact Nat.le_refl _

theorem length_exponentText_le {exponent : Int} (hexponent : exponent.natAbs < 10 ^ 3) :
    (exponentText exponent).length ≤ 5 := by
  have hdigits := (Nat.length_toDigits_le_iff (by decide) (by decide)).mpr hexponent
  rw [exponentText, List.length_cons, List.length_cons]
  omega

end Numeral

/-! ## Layouts of a decimal -/

namespace Decimal

theorem length_zeros (count : Nat) : (zeros count).length = count := List.length_replicate

/-- Digits in plain notation, the first of them at a place that has no exponent in the canonical
text. -/
theorem length_plainText_le {digits : List Char} {place : Int} (hdigits : digits.length ≤ 17)
    (hlow : -6 ≤ place) (hhigh : place ≤ 20) : (plainText digits place).length ≤ 24 := by
  rw [plainText]
  split
  · simp only [List.length_cons, List.length_append, length_zeros]
    omega
  · dsimp only
    split
    · rw [List.length_append, length_zeros]
      omega
    · rw [List.length_append, List.length_cons, List.length_take, List.length_drop]
      omega

theorem length_exponentForm_le {digits : List Char} {place : Int} (hdigits : digits.length ≤ 17)
    (hplace : place.natAbs < 10 ^ 3) : (exponentForm digits place).length ≤ 24 := by
  have hfraction := Numeral.length_fractionText_le (digits.drop 1)
  have hexponent := Numeral.length_exponentText_le hplace
  rw [List.length_drop] at hfraction
  rw [exponentForm, List.length_append, List.length_append, List.length_take]
  omega

theorem length_canonicalText_le {digits : List Char} {place : Int} (hdigits : digits.length ≤ 17)
    (hplace : place.natAbs < 10 ^ 3) : (canonicalText digits place).length ≤ 24 := by
  rw [canonicalText]
  split
  · next hplain => exact length_plainText_le hdigits hplain.1 hplain.2
  · exact length_exponentForm_le hdigits hplace

/-! ## The shortest decimal -/

theorem length_digits_shortest_le {rank : Nat} (hpos : 0 < rank)
    (hfinite : rank < Binary64.finiteCount) : (shortest .up rank).digits.length ≤ 17 := by
  obtain ⟨-, -, hcoefficient, -⟩ := shortest_bounds .up hpos hfinite
  rw [length_digits_le_iff (by decide)]
  apply lt_of_le_of_ne hcoefficient
  intro hpower
  -- The power itself ends on a zero.
  have hnormal := isNormal_shortest .up hpos hfinite
  rw [IsNormal, hpower] at hnormal
  exact hnormal rfl

theorem natAbs_leadingExponent_shortest_lt {rank : Nat} (hpos : 0 < rank)
    (hfinite : rank < Binary64.finiteCount) :
    (shortest .up rank).leadingExponent.natAbs < 10 ^ 3 := by
  have hdigits := length_digits_shortest_le hpos hfinite
  have hlength := List.length_pos_iff.mpr (shortest .up rank).digits_ne_nil
  obtain ⟨-, -, -, hlow, hhigh⟩ := shortest_bounds .up hpos hfinite
  rw [leadingExponent]
  omega

end Decimal

namespace Binary64

theorem length_magnitudeText_le {rank : Nat} (hpos : 0 < rank) (hfinite : rank < finiteCount) :
    (magnitudeText rank).length ≤ 24 := by
  rw [magnitudeText_eq_canonicalText hpos hfinite]
  exact Decimal.length_canonicalText_le (Decimal.length_digits_shortest_le hpos hfinite)
    (Decimal.natAbs_leadingExponent_shortest_lt hpos hfinite)

/-- The text of any number has at most 25 characters. -/
theorem length_toText_le (x : Binary64) : x.toText.length ≤ 25 := by
  rw [toText, String.length_ofList]
  cases x with
  | nan => decide
  | infinity negative => cases negative <;> decide
  | finite negative magnitude =>
      rw [toChars_finite]
      split
      · decide
      · next hne =>
          have hsign := Numeral.length_signText_le negative
          have hmagnitude := length_magnitudeText_le (Nat.pos_of_ne_zero hne) magnitude.isLt
          rw [List.length_append]
          omega

/-- Some numbers need all of them. -/
example : (ofText "-0.0000012345678901234567").toText.length = 25 := by decide +kernel

end Binary64

end Keypad
