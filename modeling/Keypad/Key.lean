import Keypad.Digit
import Keypad.Operator
import Keypad.Text

/-!
# Keys and key sequences

A key sequence is a text of key characters, in which blanks are ignored.  A text that holds
nothing but keys and blanks is taken as it is.  Any other is scanned for its first character
that is on no key, which is reported with its place.
-/

namespace Keypad

/-- A key of the keypad. -/
inductive Key where
  | digit (digit : Digit)
  | operator (op : Operator)
  | equals
  | clear
  deriving DecidableEq

namespace Key

def char : Key → Char
  | digit d => d.char
  | operator op => op.symbol
  | equals => '='
  | clear => 'c'

/-- The key of a character; the clear key answers to both cases. -/
def ofChar? (c : Char) : Option Key :=
  if c = '=' then some equals
  else if c = 'c' ∨ c = 'C' then some clear
  else match Operator.ofSymbol? c with
    | some op => some (operator op)
    | none => (Digit.ofChar? c).map digit

@[simp]
theorem ofChar?_char (key : Key) : ofChar? key.char = some key := by
  cases key with
  | digit d =>
    have hvalid := d.valid
    have hne : ∀ {c : Char}, isDigitChar c = false → d.char ≠ c := by
      intro c hc hd
      rw [hd, hc] at hvalid
      exact Bool.false_ne_true hvalid
    have hoperator : Operator.ofSymbol? d.char = none := by
      cases hop : Operator.ofSymbol? d.char with
      | none => rfl
      | some op =>
        have hsymbol := Operator.symbol_of_ofSymbol? hop
        cases op <;> exact absurd hsymbol.symm (hne rfl)
    have hequals : d.char ≠ '=' := hne rfl
    have hclear : ¬(d.char = 'c' ∨ d.char = 'C') := fun h => h.elim (hne rfl) (hne rfl)
    simp [ofChar?, char, hoperator, hequals, hclear]
  | operator op => cases op <;> rfl
  | equals => rfl
  | clear => rfl

/-- Whether a character is blank or one of those that stand on the keys. -/
def isKeyOrBlank (c : Char) : Bool :=
  c.isDigit || Text.isBlank c || ['.', '+', '-', '*', '/', '=', 'c', 'C'].contains c

/-- Whether a text holds nothing but keys and blanks. -/
def isSequence (cs : List Char) : Bool := cs.all isKeyOrBlank

/-- The keys among the characters of a text, ignoring all others. -/
def amongChars (cs : List Char) : List Key := cs.filterMap ofChar?

/-- The keys of a text whose first character stands at a given place, or the first character
that is neither blank nor on a key. -/
def scan (position : Nat) : List Char → Except KeypadError (List Key)
  | [] => .ok []
  | c :: rest =>
    if Text.isBlank c then scan (position + 1) rest
    else match ofChar? c with
      | none => .error (.unknownKey c position)
      | some key =>
        match scan (position + 1) rest with
        | .ok keys => .ok (key :: keys)
        | .error e => .error e

/-- The keys of a key sequence. -/
def parse (text : String) : Except KeypadError (List Key) :=
  if isSequence text.toList then .ok (amongChars text.toList) else scan 0 text.toList

end Key

end Keypad
