import Keypad.Digit
import Keypad.Expression.Evaluation
import Keypad.Outcome

/-!
# What has been entered

The state of a calculation is the expression committed so far, in which each operand is
followed by its operator, and the text of the operand that is being typed.  In strict mode an
empty operand is refused; otherwise it counts as zero.
-/

namespace Keypad

/-- The committed expression and the operand being typed. -/
structure Entry where
  expression : Expression := []
  pending : String := ""
  deriving DecidableEq

namespace Entry

/-- The number that the pending text means, unless strict mode refuses it as empty. -/
def operand (strict : Bool) (entry : Entry) : Except KeypadError Binary64 :=
  if strict && entry.pending.isEmpty then .error .emptyOperand
  else .ok (.ofText entry.pending)

def typeDigit (entry : Entry) (digit : Digit) : Entry :=
  { entry with pending := entry.pending.push digit.char }

@[simp]
theorem pending_typeDigit (entry : Entry) (digit : Digit) :
    (entry.typeDigit digit).pending = entry.pending.push digit.char := rfl

/-- The entry after an operator is committed together with the pending operand. -/
def commit (strict : Bool) (entry : Entry) (op : Operator) : Except KeypadError Entry :=
  match entry.operand strict with
  | .error e => .error e
  | .ok value =>
    .ok { expression := entry.expression ++ [.operand value, .operator op], pending := "" }

/-- The outcome of the expression that the pending operand completes, and the entry after it:
the outcome's text is pending and nothing is committed. -/
def finish (strict : Bool) (entry : Entry) : Except KeypadError (Outcome × Entry) :=
  match entry.operand strict with
  | .error e => .error e
  | .ok value =>
    let outcome := Outcome.ofNumber (entry.expression ++ [Token.operand value]).evaluate
    .ok (outcome, { expression := [], pending := outcome.text })

end Entry

end Keypad
