import Keypad.Binary64.Arithmetic
import Keypad.Decimal.Layout
import Keypad.Decimal.Numeral
import Keypad.Decimal.Shortest

/-!
# JSON numbers

A finite number is written with the fewest digits that read back and always with a point or an
exponent, so that it is seen to be no integer.  What is not finite is written as `null`.

The reader is quick rather than exact: it keeps as many leading digits as fit 64 bits and
scales their nearest number by a power of ten, which rounds once more.  A number past the
finite ones is refused.
-/

namespace Keypad.Json

/-- The least exponent of a leading digit that is written positionally. -/
def positionalFrom : Int := -5

/-- The greatest exponent of a leading digit that is written positionally. -/
def positionalUpTo : Int := 15

/-- A positive decimal in JSON: a whole number keeps a point and a zero. -/
def writeDecimal (d : Decimal) : List Char :=
  if positionalFrom ≤ d.leadingExponent ∧ d.leadingExponent ≤ positionalUpTo then
    if 0 ≤ d.exponent then d.positional ++ ['.', '0'] else d.positional
  else d.scientific

/-- A magnitude in JSON; of two equally near shortest decimals the one with an even last
digit. -/
def writeMagnitude (rank : Nat) : List Char :=
  if rank = 0 then ['0', '.', '0'] else writeDecimal (Decimal.shortest .toEven rank)

def writeNumber : Binary64 → List Char
  | .finite negative magnitude =>
    if negative then '-' :: writeMagnitude magnitude else writeMagnitude magnitude
  | _ => ['n', 'u', 'l', 'l']

/-- The greatest significand that the reader keeps. -/
def maxSignificand : Nat := UInt64.size - 1

/-- Appends the leading digits of a text to a significand, as long as it fits: the significand,
how many digits were appended, and the rest of the text. -/
def gather (significand : Nat) : List Char → Nat × Nat × List Char
  | [] => (significand, 0, [])
  | c :: rest =>
    let next := significand * 10 + (c.toNat - '0'.toNat)
    if c.isDigit && next ≤ maxSignificand then
      let (significand, taken, rest) := gather next rest
      (significand, taken + 1, rest)
    else (significand, 0, c :: rest)

/-- A number multiplied by a power of ten in steps that stay in range, or nothing when the
result is past the finite numbers. -/
def scaleByTen (x : Binary64) (exponent : Int) : Option Binary64 :=
  if h : exponent.natAbs ≤ 308 then
    let power := Decimal.toBinary64 false ⟨1, exponent.natAbs⟩
    if 0 ≤ exponent then
      let product := x * power
      if product.isFinite then some product else none
    else some (x / power)
  else if x.isZero then some x
  else if h' : 0 ≤ exponent then none
  else scaleByTen (x / Decimal.toBinary64 false ⟨1, 308⟩) (exponent + 308)
termination_by (-exponent).toNat
decreasing_by omega

/-- The exponent at the start of a text, zero if there is none, and what follows it. -/
def readExponent? : List Char → Option (Int × List Char)
  | [] => some (0, [])
  | letter :: rest =>
    if letter == 'e' || letter == 'E' then
      let (negative, rest) := Numeral.splitSign rest
      let ds := Text.leadingDigits rest
      if ds.isEmpty then none
      else
        let exponent : Int := Text.digitsValue ds
        some (if negative then -exponent else exponent, Text.afterDigits rest)
    else some (0, letter :: rest)

/-- The digits after a point at the start of a text: the significand with them appended, how
many were appended, and what follows all of them. -/
def readFraction? (significand : Nat) : List Char → Option (Nat × Nat × List Char)
  | '.' :: rest =>
    if (Text.leadingDigits rest).isEmpty then none
    else
      let (significand, taken, rest) := gather significand rest
      some (significand, taken, Text.afterDigits rest)
  | rest => some (significand, 0, rest)

/-- The number without a sign at the start of a text, and what follows it.  Integer digits that
do not fit the significand only raise the exponent. -/
def readMagnitude? (cs : List Char) : Option (Binary64 × List Char) :=
  let whole := Text.leadingDigits cs
  if whole.isEmpty || (whole.head? == some '0' && whole.length != 1) then none
  else do
    let (significand, taken, _) := gather 0 whole
    let (significand, appended, rest) ← readFraction? significand (Text.afterDigits cs)
    let (exponent, rest) ← readExponent? rest
    let shift : Int := (whole.length - taken : Nat) - appended
    let number ← scaleByTen (Decimal.toBinary64 false ⟨significand, 0⟩) (exponent + shift)
    some (number, rest)

def readNumber? : List Char → Option (Binary64 × List Char)
  | '-' :: rest => (readMagnitude? rest).map fun (number, rest) => (-number, rest)
  | cs => readMagnitude? cs

end Keypad.Json
