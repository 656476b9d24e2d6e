import Keypad.Operator

/-!
# Expressions as token lists

An expression is a flat list of operands and operators.  The lists that the keypad builds
alternate, but every list is an expression here, and what is malformed has a value too.
-/

namespace Keypad

/-- An entry of an expression. -/
inductive Token where
  | operand (value : Binary64)
  | operator (op : Operator)
  deriving DecidableEq

namespace Token

def operator? : Token → Option Operator
  | operator op => some op
  | operand _ => none

end Token

/-- A flat list of operands and operators. -/
abbrev Expression := List Token

namespace Expression

/-- The operators of an expression, from left to right. -/
def operators (e : Expression) : List Operator := e.filterMap Token.operator?

@[simp]
theorem operators_append (e f : Expression) :
    operators (e ++ f) = e.operators ++ f.operators :=
  List.filterMap_append

/-- The expression without the operator at its end, if it ends on one. -/
def dropTrailingOperator (e : Expression) : Expression :=
  match e.getLast? with
  | some (.operator _) => e.dropLast
  | _ => e

end Expression

end Keypad
