/-!
# Characters, lines and bytes of texts

What the readers of numbers, keys, settings and arguments share: which characters are blank, the
runs of digits in a text and their values, the lines of a text, and a text as UTF-8 bytes.  Only
ASCII digits count as digits, while blanks are those of all of Unicode.
-/

namespace Keypad.Text

/-! ## Blank characters -/

/-- Whether a character has the Unicode property `White_Space`. -/
def isBlank (c : Char) : Bool :=
  let n := c.toNat
  (9 ≤ n && n ≤ 13) || n == 0x20 || n == 0x85 || n == 0xA0 || n == 0x1680 ||
    (0x2000 ≤ n && n ≤ 0x200A) || n == 0x2028 || n == 0x2029 || n == 0x202F ||
    n == 0x205F || n == 0x3000

def trimStart (cs : List Char) : List Char := cs.dropWhile isBlank

def trimEnd (cs : List Char) : List Char := (cs.reverse.dropWhile isBlank).reverse

/-- The text without the blanks at both ends. -/
def trim (cs : List Char) : List Char := trimEnd (trimStart cs)

/-! ## Runs of decimal digits -/

def leadingDigits (cs : List Char) : List Char := cs.takeWhile Char.isDigit

def afterDigits (cs : List Char) : List Char := cs.dropWhile Char.isDigit

/-- The value of a run of decimal digits. -/
def digitsValue (cs : List Char) : Nat := Nat.ofDigitChars 10 cs 0

/-- Nothing is lost between the leading digits and what follows them. -/
theorem leadingDigits_append_afterDigits (cs : List Char) :
    leadingDigits cs ++ afterDigits cs = cs :=
  List.takeWhile_append_dropWhile

/-- The leading run holds digits only. -/
theorem isDigit_of_mem_leadingDigits {cs : List Char} {c : Char}
    (h : c ∈ leadingDigits cs) : c.isDigit = true := by
  induction cs with
  | nil => simp [leadingDigits] at h
  | cons d ds ih =>
    cases hd : d.isDigit with
    | false => simp [leadingDigits, hd] at h
    | true =>
      simp only [leadingDigits, List.takeWhile_cons, hd, if_true, List.mem_cons] at h
      rcases h with rfl | h
      · exact hd
      · exact ih h

/-- The digits of a natural number have its value. -/
@[simp]
theorem digitsValue_toDigits (n : Nat) : digitsValue (Nat.toDigits 10 n) = n :=
  Nat.ofDigitChars_toDigits (by decide) (by decide)

/-! ## Hexadecimal digits -/

/-- The value of a hexadecimal digit in either case. -/
def hexValue? (c : Char) : Option Nat :=
  if c.isDigit then some (c.toNat - '0'.toNat)
  else if 'a' ≤ c && c ≤ 'f' then some (c.toNat - 'a'.toNat + 10)
  else if 'A' ≤ c && c ≤ 'F' then some (c.toNat - 'A'.toNat + 10)
  else none

/-- The value of a run of hexadecimal digits. -/
def hexNumber? (cs : List Char) : Option Nat :=
  cs.foldl (fun value? c => value?.bind fun value => (hexValue? c).map (16 * value + ·)) (some 0)

/-- The hexadecimal digit of a value, in lower case. -/
def hexDigit (value : Nat) : Char := Nat.digitChar value

/-- Reading the digit of a value gives the value. -/
theorem hexValue?_hexDigit {value : Nat} (h : value < 16) :
    hexValue? (hexDigit value) = some value := by
  revert value
  decide

/-! ## Lines

A line ends at a line feed, which a carriage return may precede, or at the end of the text.  The
lines do not contain their ends, and nothing after the last line feed is no line.  Lines are split
in the same way whether a text is given as characters or as bytes. -/

/-- The lines of a text, given what stands for a line feed and for a carriage return. -/
def splitLines {α : Type} [DecidableEq α] (feed carriage : α) : List α → List (List α)
  | [] => []
  | c :: rest =>
    if c = feed then [] :: splitLines feed carriage rest
    else if c = carriage ∧ rest.head? = some feed then splitLines feed carriage rest
    else match splitLines feed carriage rest with
      | [] => [[c]]
      | line :: others => (c :: line) :: others

def lines (cs : List Char) : List (List Char) := splitLines '\n' '\r' cs

/-- The lines of a text that is given as bytes. -/
def byteLines (bytes : List UInt8) : List (List UInt8) := splitLines 10 13 bytes

/-! ## UTF-8 -/

/-- The text that bytes encode in UTF-8, if they encode one. -/
def decodeUtf8? (bytes : List UInt8) : Option String := String.fromUTF8? bytes.toByteArray

/-- The bytes of a text in UTF-8. -/
def encodeUtf8 (text : String) : List UInt8 := text.toByteArray.data.toList

end Keypad.Text
