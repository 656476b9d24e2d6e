import Keypad.Expression.Basic

/-!
# Evaluation with two stacks

An expression is evaluated in one walk from left to right over a stack of operands and a stack
of operators.  Before an operator is pushed, the operators on top that bind at least as tightly
are reduced, so equal ranks associate to the left.  After the walk the rest is reduced from the
top.  Evaluation never fails: a token out of turn, an empty expression and an operand that is
missing all give not-a-number.
-/

namespace Keypad

/-- The two stacks of an evaluation, each with its top first. -/
structure Stacks where
  operands : List Binary64 := []
  operators : List Operator := []
  deriving DecidableEq

/-- What an evaluation expects next. -/
inductive Turn where
  | operand
  | operator
  deriving DecidableEq, Repr

namespace Stacks

/-- The operand on top of a stack, not-a-number if there is none, and the operands below. -/
def popOperand : List Binary64 → Binary64 × List Binary64
  | [] => (.nan, [])
  | top :: below => (top, below)

/-- Replaces the two operands on top by the value of the operator between them; the right
one is on top. -/
def reduce (operands : List Binary64) (op : Operator) : List Binary64 :=
  let (rhs, operands) := popOperand operands
  let (lhs, operands) := popOperand operands
  op.apply lhs rhs :: operands

def pushOperand (s : Stacks) (value : Binary64) : Stacks :=
  { s with operands := value :: s.operands }

/-- The operators on top that bind at least as tightly as an incoming one, top first. -/
def yielding (s : Stacks) (incoming : Operator) : List Operator :=
  s.operators.takeWhile (·.rank ≤ incoming.rank)

/-- The operators below those that yield to an incoming one. -/
def staying (s : Stacks) (incoming : Operator) : List Operator :=
  s.operators.dropWhile (·.rank ≤ incoming.rank)

/-- The stacks after an operator: those that yield to it are reduced first. -/
def pushOperator (s : Stacks) (op : Operator) : Stacks :=
  ⟨(s.yielding op).foldl reduce s.operands, op :: s.staying op⟩

/-- The stacks after a walk over the tokens, unless a token comes out of turn. -/
def walk? (turn : Turn) (s : Stacks) : Expression → Option Stacks
  | [] => some s
  | token :: rest =>
    match turn, token with
    | .operand, .operand value => walk? .operator (s.pushOperand value) rest
    | .operator, .operator op => walk? .operand (s.pushOperator op) rest
    | _, _ => none

/-- The operands after all operators are reduced from the top. -/
def drain (s : Stacks) : List Binary64 := s.operators.foldl reduce s.operands

/-- The value that the stacks hold after a walk. -/
def result (s : Stacks) : Binary64 := (popOperand s.drain).1

end Stacks

namespace Expression

/-- The value of an expression; not-a-number if it is malformed. -/
def evaluate (e : Expression) : Binary64 :=
  match Stacks.walk? .operand {} e with
  | some s => s.result
  | none => .nan

end Expression

/-! ## Running totals

While an expression is unfinished, its value so far may be shown when no later operator binds
tighter than an earlier one: then precedence does not matter, and the value so far is a value
that the finished expression really passes through. -/

/-- Whether the ranks of a list of operators never decrease from left to right. -/
def ranksAscend : List Operator → Bool
  | first :: second :: rest => decide (first.rank ≤ second.rank) && ranksAscend (second :: rest)
  | _ => true

namespace Expression

/-- Whether the value so far may be shown: the ranks never decrease from left to right. -/
def hasRunningTotal (e : Expression) : Bool := ranksAscend e.operators

/-- The value so far of an expression whose last operator still lacks its right operand. -/
def runningTotal (e : Expression) : Binary64 := e.dropTrailingOperator.evaluate

end Expression

end Keypad
