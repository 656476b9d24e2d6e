import Keypad.Expression.Evaluation

/-!
# Alternating expressions

The expressions that the keypad builds alternate between operands and operators.  Whether a
token may come next depends on the turn only, so alternation is a recursion over the tokens with
the turn as its state.  An alternating expression from operand to operand is a *chain*: a first
operand, and links of an operator and an operand each.
-/

namespace Keypad

/-! ## Turns -/

namespace Turn

/-- The turn after a token that came in turn. -/
def next : Turn → Turn
  | operand => operator
  | operator => operand

/-- The turn after all tokens of an expression that came in turn. -/
def after (turn : Turn) : Expression → Turn
  | [] => turn
  | _ :: rest => turn.next.after rest

@[simp] theorem after_nil (turn : Turn) : turn.after [] = turn := rfl

@[simp] theorem after_cons (turn : Turn) (token : Token) (rest : Expression) :
    turn.after (token :: rest) = turn.next.after rest := rfl

theorem after_append (turn : Turn) (e f : Expression) :
    turn.after (e ++ f) = (turn.after e).after f := by
  induction e generalizing turn with
  | nil => rfl
  | cons token rest ih => exact ih turn.next

end Turn

namespace Token

/-- Whether a token is of the kind that a turn expects. -/
def fits : Turn → Token → Bool
  | .operand, operand _ => true
  | .operator, operator _ => true
  | _, _ => false

end Token

namespace Expression

/-- Whether every token of an expression comes in turn. -/
def inTurn (turn : Turn) : Expression → Bool
  | [] => true
  | token :: rest => token.fits turn && inTurn turn.next rest

/-- Whether an expression is a first operand, an operator, an operand and so on. -/
def alternates (e : Expression) : Bool := e.inTurn .operand

theorem inTurn_append (turn : Turn) (e f : Expression) :
    inTurn turn (e ++ f) = (e.inTurn turn && f.inTurn (turn.after e)) := by
  induction e generalizing turn with
  | nil => rfl
  | cons token rest ih =>
      simp only [List.cons_append, inTurn, Turn.after_cons, ih, Bool.and_assoc]

theorem inTurn_concat (turn : Turn) (e : Expression) (token : Token) :
    inTurn turn (e ++ [token]) = (e.inTurn turn && token.fits (turn.after e)) := by
  rw [inTurn_append, inTurn, inTurn, Bool.and_true]

end Expression

/-! ## Chains -/

/-- An expression from operand to operand: the first operand, and each further one with the
operator before it. -/
structure Chain where
  first : Binary64
  links : List (Operator × Binary64)
  deriving DecidableEq

namespace Chain

def linkTokens (links : List (Operator × Binary64)) : Expression :=
  links.flatMap fun link => [.operator link.1, .operand link.2]

def tokens (c : Chain) : Expression := .operand c.first :: linkTokens c.links

@[simp] theorem linkTokens_nil : linkTokens [] = [] := rfl

@[simp] theorem linkTokens_cons (link : Operator × Binary64)
    (links : List (Operator × Binary64)) :
    linkTokens (link :: links) = .operator link.1 :: .operand link.2 :: linkTokens links := rfl

theorem inTurn_linkTokens (links : List (Operator × Binary64)) :
    (linkTokens links).inTurn .operator = true := by
  induction links with
  | nil => rfl
  | cons link links ih => simpa [Expression.inTurn, Token.fits, Turn.next] using ih

theorem after_linkTokens (links : List (Operator × Binary64)) :
    Turn.after .operator (linkTokens links) = .operator := by
  induction links with
  | nil => rfl
  | cons link links ih => exact ih

theorem alternates_tokens (c : Chain) : c.tokens.alternates = true :=
  inTurn_linkTokens c.links

theorem alternates_tokens_concat (c : Chain) (op : Operator) :
    (c.tokens ++ [Token.operator op]).alternates = true := by
  have hafter : Turn.after .operand c.tokens = .operator := after_linkTokens c.links
  rw [Expression.alternates, Expression.inTurn_append, hafter, ← Expression.alternates,
    c.alternates_tokens]
  rfl

end Chain

end Keypad
