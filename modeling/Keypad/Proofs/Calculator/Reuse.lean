import Keypad.Proofs.Calculator.Press
import Keypad.Proofs.Outcome

/-!
# Reusing a result

Equals leaves the text of its outcome as the only operand, and that text is read as the settled
value.  So equals pressed again finds the value that it left, and an operator takes it over as the
first operand of the next expression.  The text is never empty, so strict mode has nothing to
refuse here.
-/

namespace Keypad

namespace Entry

/-- The entry that equals leaves is completed by the settled value alone. -/
theorem completed_text_ofNumber (x : Binary64) :
    completed ⟨[], (Outcome.ofNumber x).text⟩ = [.operand x.settle] := by
  rw [completed, Outcome.ofText_text_ofNumber, List.nil_append]

theorem outcome_text_ofNumber (x : Binary64) :
    outcome ⟨[], (Outcome.ofNumber x).text⟩ = .ofNumber x.settle := by
  rw [outcome, completed_text_ofNumber]
  rfl

end Entry

namespace Calculator

theorem enter_enter (calculator : Calculator) (entry : Entry) :
    (calculator.enter entry).enter entry = calculator.enter entry := by
  simp only [enter]
  cases Screen.render calculator.settings.width.toNat entry <;> rfl

theorem entry_after_equals (calculator : Calculator) :
    (calculator.after .equals).entry =
      ⟨[], (Outcome.ofNumber calculator.entry.completed.evaluate).text⟩ :=
  entry_after calculator .equals

theorem refuses_after_equals (calculator : Calculator) (key : Key) :
    (calculator.after .equals).refuses key = false := by
  rw [refuses, Entry.refuses, entry_after_equals]
  simp [Outcome.text_ofNumber_ne_empty]

theorem after_equals_after_equals (calculator : Calculator) :
    (calculator.after .equals).after .equals = calculator.after .equals := by
  have hoperand : (calculator.after .equals).entry.after .equals =
      (calculator.after .equals).entry := by
    rw [entry_after_equals, Entry.after, Entry.outcome_text_ofNumber,
      Outcome.text_ofNumber_settle]
  calc (calculator.after .equals).after .equals
      = (calculator.after .equals).enter (calculator.after .equals).entry := by
        rw [after, if_neg (by decide), hoperand]
    _ = calculator.after .equals := enter_enter calculator _

/-- Equals pressed again changes nothing, and is refused again if it was refused.  After equals
any operator is accepted and takes over the value of the outcome, of which only positive infinity
and the sign of a zero are lost. -/
theorem equals_twice_and_reuse (calculator : Calculator) :
    let once := calculator.tryPress .equals
    let value :=
      (calculator.entry.expression ++ [Token.operand (.ofText calculator.entry.pending)]).evaluate
    let reused : Binary64 :=
      if value.isZero then .zero false
      else if value = .nan ∨ value = .infinity false then .nan else value
    once.tryPress .equals = once ∧
      (calculator.press .equals = .error .emptyOperand ∧
          once.press .equals = .error .emptyOperand ∨
        calculator.press .equals = .ok (some (.ofNumber value), once) ∧
          ∀ op, ∃ next, once.press (.operator op) = .ok (none, next) ∧
            next.entry = ⟨[.operand reused, .operator op], ""⟩) := by
  intro once value reused
  by_cases hrefuses : calculator.refuses .equals = true
  · have honce : once = calculator := tryPress_of_refuses hrefuses
    have hpress : calculator.press .equals = .error .emptyOperand := by
      rw [press_eq, if_pos hrefuses]
    rw [honce]
    exact ⟨honce, Or.inl ⟨hpress, hpress⟩⟩
  · have haccepts : calculator.refuses .equals = false := eq_false_of_ne_true hrefuses
    have honce : once = calculator.after .equals := tryPress_of_not_refuses haccepts
    rw [honce]
    refine ⟨?_, Or.inr ⟨?_, ?_⟩⟩
    · rw [tryPress_of_not_refuses (calculator.refuses_after_equals _),
        after_equals_after_equals]
    · rw [press_eq, haccepts, if_neg Bool.false_ne_true]
      rfl
    · intro op
      refine ⟨(calculator.after .equals).after (.operator op), ?_, ?_⟩
      · rw [press_eq, refuses_after_equals, if_neg Bool.false_ne_true]
        rfl
      · rw [entry_after, entry_after_equals, Entry.after, Entry.completed_text_ofNumber,
          Binary64.settle_eq]
        rfl

end Calculator

end Keypad
