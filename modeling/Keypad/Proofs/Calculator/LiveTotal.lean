import Keypad.Proofs.Calculator.Display

/-!
# The live total and the final result

An operator and equals complete the expression with the same operand.  Where there is a running
total after the operator, it is the value that equals would have found, so the two keys differ
on the screen only in how they show a value that is undefined.
-/

namespace Keypad

namespace Screen

theorem render_of_total (width : Nat) {e : Expression} {op : Operator}
    (htotal : (e ++ [Token.operator op]).hasRunningTotal = true) :
    render width ⟨e ++ [.operator op], ""⟩ = some (fit width e.evaluate.toText) := by
  have hne : e ++ [Token.operator op] ≠ [] := List.append_ne_nil_of_right_ne_nil e (by simp)
  rw [render, content?_of_not_pending rfl, if_pos ⟨hne, htotal⟩,
    Expression.runningTotal_concat_operator, Option.map_some]

end Screen

namespace Calculator

theorem refuses_operator_eq_refuses_equals (calculator : Calculator) (op : Operator) :
    calculator.refuses (.operator op) = calculator.refuses .equals := rfl

/-- After an operator the screen shows the value so far, as far as it fits. -/
theorem display_after_operator {calculator : Calculator} {op : Operator}
    (htotal : (calculator.after (.operator op)).entry.expression.hasRunningTotal = true) :
    (calculator.after (.operator op)).display =
      Screen.fit calculator.settings.width.toNat calculator.entry.outcome.number.toText := by
  rw [entry_after] at htotal
  rw [display_after (by simp), Entry.after, Screen.render_of_total _ htotal, Option.getD_some,
    Entry.outcome, Outcome.number_ofNumber]

/-- In every state an operator is refused just when equals is.  If it is accepted and leaves a
running total, it shows what equals shows, but for a value that equals would call undefined: the
operator shows which of the two it is. -/
theorem live_total_agrees_with_result (calculator : Calculator) (op : Operator) :
    (calculator.press (.operator op) = .error .emptyOperand ∧
        calculator.press .equals = .error .emptyOperand) ∨
      ∃ live outcome last,
        calculator.press (.operator op) = .ok (none, live) ∧
          calculator.press .equals = .ok (some outcome, last) ∧
          (live.entry.expression.hasRunningTotal = true →
            let fit := Screen.fit calculator.settings.width.toNat
            match outcome.number with
            | .nan => live.display = fit "NaN" ∧ last.display = fit "Undefined"
            | .infinity false => live.display = fit "Infinity" ∧ last.display = fit "Undefined"
            | _ => live.display = last.display) := by
  rw [press_eq, press_eq, refuses_operator_eq_refuses_equals]
  by_cases hrefuses : calculator.refuses .equals = true
  · left
    rw [if_pos hrefuses, if_pos hrefuses]
    exact ⟨rfl, rfl⟩
  · right
    rw [if_neg hrefuses, if_neg hrefuses]
    refine ⟨calculator.after (.operator op), calculator.entry.outcome,
      calculator.after .equals, rfl, rfl, ?_⟩
    intro htotal fit
    have hlive := display_after_operator htotal
    have hlast := calculator.display_after_equals
    rw [Entry.outcome, Outcome.number_ofNumber] at hlive
    rw [Entry.outcome, Outcome.text_ofNumber] at hlast
    rw [Entry.outcome, Outcome.number_ofNumber]
    split
    · next hnan =>
        rw [hnan] at hlive hlast
        exact ⟨hlive, hlast⟩
    · next hinfinity =>
        rw [hinfinity] at hlive hlast
        exact ⟨hlive, hlast⟩
    · next hnan hinfinity =>
        rw [hlive, hlast, if_neg (not_or_intro hnan hinfinity)]

/-- On a screen of eight characters `1 / 0 +` shows the infinity, and the longer word that equals
has for it does not fit. -/
theorem live_total_of_quotient_by_zero :
    let calculator := pressAll { settings := { width := 8 } }
      [.digit ⟨'1', rfl⟩, .operator .divide, .digit ⟨'0', rfl⟩]
    ∃ live outcome last,
      calculator.press (.operator .add) = .ok (none, live) ∧
        calculator.press .equals = .ok (some outcome, last) ∧
        live.entry.expression.hasRunningTotal = true ∧
        outcome.number = .infinity false ∧
        live.display = "Infinity" ∧ last.display = "Error" := by
  intro calculator
  have hrefuses : calculator.refuses .equals = false := rfl
  have hnumber : calculator.entry.outcome.number = .infinity false := by decide +kernel
  have htotal : (calculator.after (.operator .add)).entry.expression.hasRunningTotal = true := rfl
  rcases live_total_agrees_with_result calculator .add with
    ⟨-, hrefused⟩ | ⟨live, outcome, last, hlive, hlast, hagrees⟩
  · rw [press_eq, hrefuses] at hrefused
    cases hrefused
  · refine ⟨live, outcome, last, hlive, hlast, ?_⟩
    rw [press_eq, refuses_operator_eq_refuses_equals, hrefuses, if_neg Bool.false_ne_true]
      at hlive
    rw [press_eq, hrefuses, if_neg Bool.false_ne_true] at hlast
    obtain ⟨-, rfl⟩ := Prod.mk.inj (Except.ok.inj hlive)
    obtain ⟨houtcome, -⟩ := Prod.mk.inj (Except.ok.inj hlast)
    rw [Option.some.inj houtcome] at hnumber
    rw [hnumber] at hagrees
    exact ⟨htotal, hnumber, hagrees htotal⟩

end Calculator

end Keypad
