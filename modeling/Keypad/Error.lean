/-!
# What the keypad refuses

Arithmetic never fails: what has no value is not-a-number or an infinity.  Refused is only
input that means nothing, or in strict mode an operand that was never typed.
-/

namespace Keypad

/-- The reasons for refusing input. -/
inductive KeypadError where
  /-- An operator or an evaluation in strict mode, with no operand typed. -/
  | emptyOperand
  /-- A character that is neither a decimal digit nor the decimal point. -/
  | notDigit (c : Char)
  /-- A character that is on no key, and its place in the text, counted in characters. -/
  | unknownKey (c : Char) (position : Nat)
  deriving DecidableEq, Repr

namespace KeypadError

def message : KeypadError → String
  | emptyOperand => "no operand entered before operator or evaluation"
  | notDigit c => "'" ++ c.toString ++ "' is not a digit or decimal point"
  | unknownKey c position =>
    "unrecognised key '" ++ c.toString ++ "' at position " ++ position.repr

end KeypadError

end Keypad
