import Keypad.Decimal.Basic
import Keypad.Text

/-!
# Decimal numerals

A numeral is an optional sign, digits with at most one point among, before or after them, and
an optional exponent: a letter `e` or `E`, an optional sign and digits.  At least one digit
stands before the exponent and at least one in it.
-/

namespace Keypad

/-- A signed decimal number as it is written; zero keeps its sign. -/
structure Numeral where
  negative : Bool
  magnitude : Decimal
  deriving DecidableEq, Repr

namespace Numeral

/-- Splits a sign off the start of a text: whether it is a minus, and the rest. -/
def splitSign : List Char → Bool × List Char
  | '-' :: rest => (true, rest)
  | '+' :: rest => (false, rest)
  | rest => (false, rest)

/-- Splits a point and the digits after it off the start of a text. -/
def splitFraction : List Char → List Char × List Char
  | '.' :: rest => (Text.leadingDigits rest, Text.afterDigits rest)
  | rest => ([], rest)

/-- The exponent that a text holds: none at the end of the text, or a letter, an optional sign
and digits to the end. -/
def exponent? : List Char → Option Int
  | [] => some 0
  | letter :: rest =>
    let (negative, ds) := splitSign rest
    if (letter == 'e' || letter == 'E') && !ds.isEmpty && ds.all Char.isDigit then
      some (if negative then -(Text.digitsValue ds : Int) else Text.digitsValue ds)
    else
      none

/-- The numeral that the whole text is, if it is one. -/
def ofChars? (cs : List Char) : Option Numeral :=
  let (negative, unsigned) := splitSign cs
  let whole := Text.leadingDigits unsigned
  let (fraction, rest) := splitFraction (Text.afterDigits unsigned)
  if whole.isEmpty && fraction.isEmpty then none
  else (exponent? rest).map fun exponent =>
    ⟨negative, Text.digitsValue (whole ++ fraction), exponent - fraction.length⟩

/-- The binary number nearest to the numeral. -/
def toBinary64 (n : Numeral) : Binary64 := n.magnitude.toBinary64 n.negative

end Numeral

end Keypad
