import Keypad.Outcome
import Keypad.Proofs.Binary64.Sign
import Keypad.Proofs.NumberText

/-!
# Outcomes that are used further

An outcome's text is the operand that the next expression starts with.  Read as a number it is
the outcome's value, settled; and the text does not change when the value is settled first.
-/

namespace Keypad.Outcome

open Keypad.Binary64

/-- Whatever is typed behind the text of an undefined outcome, the operand stays undefined. -/
theorem ofText_behind_undefinedText {text : String}
    (hstarts : undefinedText.toList <+: text.toList) : ofText text = .nan := by
  obtain ⟨typed, htyped⟩ := hstarts
  have hword : undefinedText.toList = 'U' :: "ndefined".toList := by decide
  rw [ofText, ← htyped, hword, List.cons_append]
  exact ofChars_cons_eq_nan (by decide) (by decide) (by decide) _

theorem ofText_undefinedText : ofText undefinedText = .nan :=
  ofText_behind_undefinedText List.prefix_rfl

/-- The text of an outcome is read as the settled number. -/
theorem ofText_text_ofNumber (x : Binary64) : ofText (ofNumber x).text = x.settle := by
  cases x with
  | nan => exact ofText_undefinedText
  | infinity negative =>
      cases negative with
      | true => exact ofText_toText_infinity true
      | false => exact ofText_undefinedText
  | finite negative magnitude => exact ofText_toText_finite negative magnitude

theorem text_ofNumber (x : Binary64) :
    (ofNumber x).text =
      if x = .nan ∨ x = .infinity false then undefinedText else x.toText := by
  unfold ofNumber
  split
  · rfl
  · rfl
  · next hnan hinfinity => rw [if_neg (not_or_intro hnan hinfinity), text]

theorem text_zero (negative : Bool) : (ofNumber (zero negative)).text = "0" := by
  cases negative <;> decide +kernel

theorem text_ofNumber_settle (x : Binary64) : (ofNumber x.settle).text = (ofNumber x).text := by
  rcases x.settle_cases with hsame | rfl | rfl
  · rw [hsame]
  · rfl
  · rw [settle_zero, text_zero, text_zero]

theorem text_ofNumber_congr {x y : Binary64} (hsettle : x.settle = y.settle) :
    (ofNumber x).text = (ofNumber y).text := by
  rw [← text_ofNumber_settle x, hsettle, text_ofNumber_settle y]

theorem text_ofNumber_ne_empty (x : Binary64) : (ofNumber x).text ≠ "" := by
  cases ofNumber x with
  | value number => exact toText_ne_empty number
  | undefined number =>
      rw [text]
      decide

end Keypad.Outcome
