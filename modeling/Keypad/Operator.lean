import Keypad.Binary64.Arithmetic

/-!
# The four operators

Each operator has a symbol, a rank and a meaning.  A lower rank binds tighter: `*` and `/`
have rank 0, `+` and `-` have rank 1.
-/

namespace Keypad

/-- One of the four operators of the keypad. -/
inductive Operator where
  | add
  | subtract
  | multiply
  | divide
  deriving DecidableEq, Repr

namespace Operator

def symbol : Operator → Char
  | add => '+'
  | subtract => '-'
  | multiply => '*'
  | divide => '/'

def ofSymbol? : Char → Option Operator
  | '+' => some add
  | '-' => some subtract
  | '*' => some multiply
  | '/' => some divide
  | _ => none

/-- How loosely the operator binds: 0 for `*` and `/`, 1 for `+` and `-`. -/
def rank : Operator → Nat
  | multiply | divide => 0
  | add | subtract => 1

/-- The value of two operands joined by the operator. -/
def apply (op : Operator) (lhs rhs : Binary64) : Binary64 :=
  match op with
  | add => lhs + rhs
  | subtract => lhs - rhs
  | multiply => lhs * rhs
  | divide => lhs / rhs

theorem symbol_of_ofSymbol? {c : Char} {op : Operator} (h : ofSymbol? c = some op) :
    op.symbol = c := by
  unfold ofSymbol? at h
  split at h <;> cases h <;> rfl

end Operator

end Keypad
