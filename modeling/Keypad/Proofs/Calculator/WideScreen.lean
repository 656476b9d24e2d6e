import Keypad.Proofs.Calculator.LiveTotal
import Keypad.Proofs.TextLength

/-!
# A screen that is wide enough for every result

On a screen of 25 characters every number fits, and so does the text of every outcome.  What a key
shows is then the text itself, and no text of a number or of an outcome is the marker for one that
does not fit.
-/

namespace Keypad

theorem Binary64.toText_ne_errorText (x : Binary64) : x.toText ≠ Screen.errorText := by
  intro herror
  have hread : ofText x.toText = .nan := by
    rw [herror]
    decide +kernel
  rw [ofText_toText] at hread
  split at hread
  · cases hread
  · rw [hread] at herror
    exact absurd herror (by decide)

namespace Outcome

theorem text_ne_errorText (outcome : Outcome) : outcome.text ≠ Screen.errorText := by
  cases outcome with
  | value number => exact number.toText_ne_errorText
  | undefined number =>
      rw [text]
      decide

theorem length_text_le (outcome : Outcome) : outcome.text.length ≤ 25 := by
  cases outcome with
  | value number => exact number.length_toText_le
  | undefined number =>
      rw [text]
      decide

end Outcome

namespace Calculator

variable {calculator : Calculator}

/-- On a wide screen equals shows the outcome in full. -/
theorem display_after_equals_of_wide (hwide : 25 ≤ calculator.settings.width.toNat) :
    (calculator.after .equals).display = calculator.entry.outcome.text := by
  rw [display_after_equals]
  exact Screen.fit_of_le ((Outcome.length_text_le _).trans hwide)

theorem runningTotal_after_operator (calculator : Calculator) (op : Operator) :
    (calculator.after (.operator op)).entry.expression.runningTotal =
      calculator.entry.outcome.number := by
  rw [entry_after, Entry.after, Expression.runningTotal_concat_operator, Entry.outcome,
    Outcome.number_ofNumber]

/-- On a wide screen an operator shows the running total in full. -/
theorem display_after_operator_of_wide {op : Operator}
    (hwide : 25 ≤ calculator.settings.width.toNat)
    (htotal : (calculator.after (.operator op)).entry.expression.hasRunningTotal = true) :
    (calculator.after (.operator op)).display =
      (calculator.after (.operator op)).entry.expression.runningTotal.toText := by
  rw [display_after_operator htotal, runningTotal_after_operator]
  exact Screen.fit_of_le ((Binary64.length_toText_le _).trans hwide)

theorem refuses_eq_false_of_operand {key : Key}
    (hoperand : calculator.settings.strict = false ∨ calculator.entry.pending ≠ "") :
    calculator.refuses key = false := by
  rw [refuses, Entry.refuses]
  rcases hoperand with hlenient | hpending
  · rw [hlenient, Bool.false_and, Bool.false_and]
  · have hempty : calculator.entry.pending.isEmpty = false := by simpa using hpending
    rw [hempty, Bool.and_false, Bool.false_and]

/-- Every number has at most 25 characters.  So in every state of every run a screen of that width
shows an outcome, and a running total that an operator leaves, in full and never as the marker for
what does not fit.  Equals and operators are accepted but for an empty operand in strict mode. -/
theorem wide_screen_shows_every_result :
    (∀ x : Binary64, x.toText.length ≤ 25) ∧
      ∀ (settings : Settings) (keys : List Key), 25 ≤ settings.width.toNat →
        let calculator := pressAll { settings } keys
        (∀ outcome last, calculator.press .equals = .ok (some outcome, last) →
          last.display = outcome.text ∧ last.display ≠ "Error") ∧
        (∀ op live, calculator.press (.operator op) = .ok (none, live) →
          live.entry.expression.hasRunningTotal = true →
            live.display = live.entry.expression.runningTotal.toText ∧
              live.display ≠ "Error") ∧
        (settings.strict = false ∨ calculator.entry.pending ≠ "" →
          (∃ outcome last, calculator.press .equals = .ok (some outcome, last)) ∧
            ∀ op, ∃ live, calculator.press (.operator op) = .ok (none, live)) := by
  refine ⟨Binary64.length_toText_le, ?_⟩
  intro settings keys hwide calculator
  have hsettings : calculator.settings = settings := settings_pressAll _ keys
  rw [← hsettings] at hwide ⊢
  refine ⟨?_, ?_, ?_⟩
  · intro outcome last hpress
    obtain ⟨houtcome, rfl⟩ := eq_of_press hpress
    cases houtcome
    rw [display_after_equals_of_wide hwide]
    exact ⟨rfl, Outcome.text_ne_errorText _⟩
  · intro op live hpress htotal
    obtain ⟨-, rfl⟩ := eq_of_press hpress
    rw [display_after_operator_of_wide hwide htotal]
    exact ⟨rfl, Binary64.toText_ne_errorText _⟩
  · intro hoperand
    constructor
    · exact ⟨_, _, press_of_not_refuses (refuses_eq_false_of_operand hoperand)⟩
    · intro op
      exact ⟨_, press_of_not_refuses (refuses_eq_false_of_operand hoperand)⟩

/-- After `0 - 1 = / 600000` equals and another operator both show all 25 characters. -/
theorem wide_screen_shows_every_result_longest :
    let settings : Settings := { strict := true, width := 25 }
    let keys : List Key := [.digit ⟨'0', rfl⟩, .operator .subtract, .digit ⟨'1', rfl⟩, .equals,
      .operator .divide, .digit ⟨'6', rfl⟩, .digit ⟨'0', rfl⟩, .digit ⟨'0', rfl⟩,
      .digit ⟨'0', rfl⟩, .digit ⟨'0', rfl⟩, .digit ⟨'0', rfl⟩]
    let calculator := pressAll { settings } keys
    25 ≤ settings.width.toNat ∧ calculator.entry.pending ≠ "" ∧
      (∃ outcome last, calculator.press .equals = .ok (some outcome, last) ∧
        outcome.text = "-0.0000016666666666666667" ∧ last.display = outcome.text) ∧
      ∃ live, calculator.press (.operator .add) = .ok (none, live) ∧
        live.entry.expression.hasRunningTotal = true ∧
        live.display = live.entry.expression.runningTotal.toText := by
  intro settings keys calculator
  have hwide : 25 ≤ settings.width.toNat := by decide
  have hpending : calculator.entry.pending ≠ "" := by decide +kernel
  obtain ⟨hequals, hoperator, haccepted⟩ := wide_screen_shows_every_result.2 settings keys hwide
  obtain ⟨⟨outcome, last, hlast⟩, hlive⟩ := haccepted (Or.inr hpending)
  obtain ⟨live, hlive⟩ := hlive .add
  have htext : calculator.entry.outcome.text = "-0.0000016666666666666667" := by decide +kernel
  have houtcome : outcome.text = "-0.0000016666666666666667" := by
    rw [Option.some.inj (eq_of_press hlast).1, htext]
  have htotal : live.entry.expression.hasRunningTotal = true := by
    rw [(eq_of_press hlive).2]
    decide +kernel
  exact ⟨hwide, hpending, ⟨outcome, last, hlast, houtcome, (hequals outcome last hlast).1⟩,
    live, hlive, htotal, (hoperator .add live hlive htotal).1⟩

end Calculator

end Keypad
