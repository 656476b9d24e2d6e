import Keypad.Error

/-!
# Digits of an operand

The keys that type an operand: the decimal digits and the decimal point.
-/

namespace Keypad

/-- Whether a character types part of an operand. -/
def isDigitChar (c : Char) : Bool := c.isDigit || c == '.'

/-- A decimal digit or the decimal point. -/
structure Digit where
  char : Char
  valid : isDigitChar char = true
  deriving DecidableEq

namespace Digit

def point : Digit := ⟨'.', rfl⟩

def ofChar? (c : Char) : Option Digit :=
  if h : isDigitChar c = true then some ⟨c, h⟩ else none

/-- The digit of a character, or the error that it is not one. -/
def ofChar (c : Char) : Except KeypadError Digit :=
  match ofChar? c with
  | some digit => .ok digit
  | none => .error (.notDigit c)

@[simp]
theorem ofChar?_char (d : Digit) : ofChar? d.char = some d := by
  simp [ofChar?, d.valid]

theorem char_of_ofChar? {c : Char} {d : Digit} (h : ofChar? c = some d) : d.char = c := by
  unfold ofChar? at h
  split at h <;> cases h
  rfl

end Digit

end Keypad
