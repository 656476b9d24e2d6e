import Keypad.Decimal.Layout
import Keypad.Decimal.Numeral
import Keypad.Decimal.Shortest
import Keypad.Text

/-!
# Numbers as the keypad shows and reads them

A number is shown with the fewest digits that read back: positionally from a millionth up to
below `10 ^ 21`, and with a signed exponent outside.  Both zeros are shown as `0`.

A typed operand is read as the nearest number.  Blanks around it do not count, an empty text is
zero, and what is no number is not-a-number, so a stray second point poisons the operand rather
than failing.
-/

namespace Keypad.Binary64

/-- The smallest rank that is shown positionally: the number nearest to a millionth. -/
def positionalFrom : Nat := Decimal.rank ⟨1, -6⟩

/-- The smallest rank past those shown positionally: the number nearest to `10 ^ 21`. -/
def positionalBelow : Nat := Decimal.rank ⟨1, 21⟩

/-- The text of a positive magnitude; of two equally near shortest decimals the larger. -/
def magnitudeText (rank : Nat) : List Char :=
  let d := Decimal.shortest .up rank
  if positionalFrom ≤ rank && rank < positionalBelow then d.positional else d.scientific

/-- The characters that show a number. -/
def toChars : Binary64 → List Char
  | .nan => ['N', 'a', 'N']
  | .infinity false => "Infinity".toList
  | .infinity true => "-Infinity".toList
  | .finite negative magnitude =>
    if magnitude.val = 0 then ['0']
    else if negative then '-' :: magnitudeText magnitude
    else magnitudeText magnitude

def toText (x : Binary64) : String := .ofList x.toChars

/-- The number that an operand's characters mean, blanks at both ends aside. -/
def ofChars (cs : List Char) : Binary64 :=
  let trimmed := Text.trim cs
  if trimmed.isEmpty then zero false
  else if trimmed = "Infinity".toList ∨ trimmed = "+Infinity".toList then .infinity false
  else if trimmed = "-Infinity".toList then .infinity true
  else match Numeral.ofChars? trimmed with
    | some numeral => numeral.toBinary64
    | none => .nan

def ofText (text : String) : Binary64 := ofChars text.toList

end Keypad.Binary64
