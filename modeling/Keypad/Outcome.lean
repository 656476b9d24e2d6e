import Keypad.NumberText

/-!
# Outcomes of a finished expression

A finished expression has a value, or it is undefined.  Undefined are not-a-number and
positive infinity; negative infinity is a value like any other.
-/

namespace Keypad

/-- The text that stands for an undefined outcome. -/
def undefinedText : String := "Undefined"

/-- The outcome of evaluating a finished expression. -/
inductive Outcome where
  /-- A value that can be shown and used further. -/
  | value (number : Binary64)
  /-- Not-a-number or positive infinity. -/
  | undefined (number : Binary64)
  deriving DecidableEq

namespace Outcome

/-- The outcome that a number is. -/
def ofNumber : Binary64 → Outcome
  | .nan => .undefined .nan
  | .infinity false => .undefined (.infinity false)
  | x => .value x

def isValue : Outcome → Bool
  | value _ => true
  | undefined _ => false

def number : Outcome → Binary64
  | value x => x
  | undefined x => x

/-- The text shown for the outcome. -/
def text : Outcome → String
  | value x => x.toText
  | undefined _ => undefinedText

@[simp]
theorem number_ofNumber (x : Binary64) : (ofNumber x).number = x := by
  unfold ofNumber
  split <;> rfl

end Outcome

end Keypad
