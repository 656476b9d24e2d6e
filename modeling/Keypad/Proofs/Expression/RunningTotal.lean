import Keypad.Proofs.Expression.Stacks

/-!
# What a running total stands for

When the ranks of an expression's operators never decrease, the last operator is at least as
loose as every one before it.  Everything on the stack then yields to it, and the walk goes on
from the value so far alone, whatever tokens follow.
-/

namespace Keypad

/-- No operator before the last one of an ascending list is looser than it. -/
theorem rank_le_of_ranksAscend {ops : List Operator} {last : Operator}
    (hascend : ranksAscend (ops ++ [last]) = true) :
    ∀ op ∈ ops, op.rank ≤ last.rank := by
  induction ops with
  | nil => simp
  | cons first ops ih =>
      cases ops with
      | nil => simpa [ranksAscend] using hascend
      | cons second ops =>
          simp only [List.cons_append, ranksAscend, Bool.and_eq_true,
            decide_eq_true_eq] at hascend
          have hrest := ih hascend.2
          intro op hop
          rcases List.mem_cons.mp hop with rfl | hop
          · exact hascend.1.trans (hrest second List.mem_cons_self)
          · exact hrest op hop

/-- Ranks that do not ascend decrease somewhere from one operator to the next. -/
theorem exists_rank_lt_of_not_ranksAscend {ops : List Operator}
    (hascend : ranksAscend ops = false) :
    ∃ before left right later, ops = before ++ left :: right :: later ∧ right.rank < left.rank := by
  induction ops with
  | nil => cases hascend
  | cons first ops ih =>
      cases ops with
      | nil => cases hascend
      | cons second ops =>
          by_cases hrank : first.rank ≤ second.rank
          · rw [ranksAscend, decide_eq_true hrank, Bool.true_and] at hascend
            obtain ⟨before, left, right, later, hops, hlt⟩ := ih hascend
            exact ⟨first :: before, left, right, later, by rw [hops, List.cons_append], hlt⟩
          · exact ⟨[], first, second, ops, rfl, Nat.lt_of_not_le hrank⟩

namespace Expression

theorem after_of_alternates_concat {pre : Expression} {op : Operator}
    (halternates : (pre ++ [Token.operator op]).alternates = true) :
    pre.alternates = true ∧ Turn.after .operand pre = .operator := by
  rw [alternates, inTurn_concat, Bool.and_eq_true] at halternates
  obtain ⟨hpre, hop⟩ := halternates
  refine ⟨hpre, ?_⟩
  cases hturn : Turn.after .operand pre with
  | operand => simp [hturn, Token.fits] at hop
  | operator => rfl

/-- After an operator with a running total, the stacks hold the value so far and the operator. -/
theorem pushAll_concat_of_hasRunningTotal {pre : Expression} {op : Operator}
    (halternates : (pre ++ [Token.operator op]).alternates = true)
    (htotal : (pre ++ [Token.operator op]).hasRunningTotal = true) :
    Stacks.pushAll {} (pre ++ [Token.operator op]) = ⟨[pre.evaluate], [op]⟩ := by
  obtain ⟨hpre, hturn⟩ := after_of_alternates_concat halternates
  have hbalanced : (Stacks.pushAll {} pre).Balanced .operator := by
    rw [← hturn]
    exact balanced_of_alternates hpre
  have hascend : ranksAscend (pre.operators ++ [op]) = true := by
    simpa [hasRunningTotal, operators, Token.operator?] using htotal
  have hyield : ∀ top ∈ (Stacks.pushAll {} pre).operators, top.rank ≤ op.rank := by
    intro top htop
    rcases Stacks.mem_operators_pushAll htop with hinitial | hpushed
    · simp at hinitial
    · exact rank_le_of_ranksAscend hascend top hpushed
  rw [Stacks.pushAll_append, Stacks.pushAll_cons, Stacks.pushAll_nil, Stacks.push,
    Stacks.pushOperator_of_yielding hyield, Stacks.drain_eq_result hbalanced,
    evaluate_of_alternates hpre]

/-- Two expressions that leave the same stacks at the same turn have the same value with any
tokens after them. -/
theorem evaluate_append_of_pushAll_eq {e f : Expression}
    (he : e.alternates = true) (hf : f.alternates = true)
    (hturn : Turn.after .operand e = Turn.after .operand f)
    (hstacks : Stacks.pushAll {} e = Stacks.pushAll {} f) (rest : Expression) :
    (e ++ rest).evaluate = (f ++ rest).evaluate := by
  have hrest : (e ++ rest).alternates = (f ++ rest).alternates := by
    rw [alternates] at he hf
    rw [alternates, alternates, inTurn_append, inTurn_append, he, hf, hturn]
  cases halternates : (f ++ rest).alternates with
  | true =>
      rw [evaluate_of_alternates halternates, evaluate_of_alternates (hrest.trans halternates),
        Stacks.pushAll_append, Stacks.pushAll_append, hstacks]
  | false =>
      rw [evaluate_of_not_alternates halternates,
        evaluate_of_not_alternates (hrest.trans halternates)]

theorem evaluate_append_of_hasRunningTotal {pre : Expression} {op : Operator}
    (halternates : (pre ++ [Token.operator op]).alternates = true)
    (htotal : (pre ++ [Token.operator op]).hasRunningTotal = true) (rest : Expression) :
    (pre ++ [Token.operator op] ++ rest).evaluate =
      evaluate (.operand pre.evaluate :: .operator op :: rest) := by
  obtain ⟨-, hturn⟩ := after_of_alternates_concat halternates
  apply evaluate_append_of_pushAll_eq (f := [.operand pre.evaluate, .operator op])
    halternates rfl
  · rw [Turn.after_append, hturn]
    rfl
  · rw [pushAll_concat_of_hasRunningTotal halternates htotal]
    rfl

@[simp] theorem runningTotal_concat_operator (pre : Expression) (op : Operator) :
    runningTotal (pre ++ [.operator op]) = pre.evaluate := by
  simp [runningTotal, dropTrailingOperator]

/-- The running total of an expression may stand for all before its last operator, whatever is
typed next: operators that bind tighter than the last one included. -/
theorem evaluate_append_eq_runningTotal_append {pre : Expression} {op : Operator}
    (halternates : (pre ++ [Token.operator op]).alternates = true)
    (htotal : (pre ++ [Token.operator op]).hasRunningTotal = true) (rest : Expression) :
    (pre ++ [Token.operator op] ++ rest).evaluate =
        evaluate (.operand pre.evaluate :: .operator op :: rest) ∧
      runningTotal (pre ++ [Token.operator op]) = pre.evaluate :=
  ⟨evaluate_append_of_hasRunningTotal halternates htotal rest, runningTotal_concat_operator pre op⟩

/-- In `6 / 3 - 1 * 4` the total `2` stands for `6 / 3`, although `*` binds tighter than `-`. -/
theorem evaluate_quotient_eq_runningTotal_append :
    let six := Token.operand (.ofBits 0x4018000000000000)
    let three := Token.operand (.ofBits 0x4008000000000000)
    let pre : Expression := [six, .operator .divide, three]
    let rest : Expression := [.operand (.ofBits 0x3FF0000000000000), .operator .multiply,
      .operand (.ofBits 0x4010000000000000)]
    (pre ++ [Token.operator .subtract]).alternates = true ∧
      (pre ++ [Token.operator .subtract]).hasRunningTotal = true ∧
      (pre ++ [Token.operator .subtract] ++ rest).evaluate =
        evaluate (.operand pre.evaluate :: .operator .subtract :: rest) ∧
      runningTotal (pre ++ [Token.operator .subtract]) = pre.evaluate :=
  ⟨rfl, rfl, evaluate_append_eq_runningTotal_append rfl rfl _⟩

end Expression

end Keypad
