import Keypad.Proofs.Expression.Precedence
import Mathlib.Data.List.Basic

/-!
# The operations of an evaluation

Each reduction applies one operator to the two operands on top.  The operations of an evaluation
are those of the left folds of its terms and of the left fold of the terms' values, with the same
operands: the stacks only do them in another order, since a term is added as soon as it is known.
The last operation gives the value.
-/

namespace Keypad

/-- An operator and the operands that it is applied to. -/
structure Operation where
  op : Operator
  lhs : Binary64
  rhs : Binary64
  deriving DecidableEq

def Operation.value (operation : Operation) : Binary64 :=
  operation.op.apply operation.lhs operation.rhs

namespace Stacks

/-- The operation that reduces the two operands on top. -/
def operation (operands : List Binary64) (op : Operator) : Operation :=
  let (rhs, below) := popOperand operands
  ⟨op, (popOperand below).1, rhs⟩

/-- Reducing puts the value of the operation in the place of its operands. -/
theorem reduce_eq (operands : List Binary64) (op : Operator) :
    reduce operands op = (operation operands op).value :: operands.drop 2 := by
  match operands with
  | [] => rfl
  | [_] => rfl
  | _ :: _ :: _ => rfl

/-- The operations that reduce operands by operators in turn. -/
def reductions (operands : List Binary64) : List Operator → List Operation
  | [] => []
  | op :: ops => operation operands op :: reductions (reduce operands op) ops

/-- The operations that a token brings about. -/
def pushOperations (s : Stacks) : Token → List Operation
  | .operand _ => []
  | .operator op => reductions s.operands (s.yielding op)

/-- The operations of a walk over tokens and of the reductions after it. -/
def operations (s : Stacks) : Expression → List Operation
  | [] => reductions s.operands s.operators
  | token :: rest => s.pushOperations token ++ (s.push token).operations rest

end Stacks

/-- The operations that evaluating an expression performs, in order. -/
def Expression.operations (e : Expression) : List Operation := Stacks.operations {} e

namespace Chain

def foldOperations : Binary64 → List (Operator × Binary64) → List Operation
  | _, [] => []
  | x, (op, y) :: links => ⟨op, x, y⟩ :: foldOperations (op.apply x y) links

/-- The operations of applying the operators of a chain from left to right. -/
def operations (c : Chain) : List Operation := foldOperations c.first c.links

@[simp] theorem operations_nil (x : Binary64) : operations ⟨x, []⟩ = [] := rfl

@[simp] theorem operations_cons (x y : Binary64) (op : Operator)
    (links : List (Operator × Binary64)) :
    operations ⟨x, (op, y) :: links⟩ = ⟨op, x, y⟩ :: operations ⟨op.apply x y, links⟩ := rfl

/-- The operations of a chain by precedence: those of each term, and those of their sum. -/
def termwiseOperations (c : Chain) : List Operation :=
  c.firstTerm.operations ++ (splitTerms c.links).2.flatMap (fun term => term.2.operations) ++
    c.termValues.operations

/-! ## Terms -/

/-- Cutting links into terms loses and moves nothing. -/
theorem linkTokens_splitTerms (links : List (Operator × Binary64)) :
    linkTokens links = linkTokens (splitTerms links).1 ++
      (splitTerms links).2.flatMap fun term => .operator term.1 :: term.2.tokens := by
  induction links with
  | nil => rfl
  | cons link links ih =>
      obtain ⟨op, x⟩ := link
      rw [linkTokens_cons, ih]
      cases hop : op.tight with
      | true =>
          rw [splitTerms_cons_of_tight hop, linkTokens_cons, List.cons_append, List.cons_append]
      | false =>
          rw [splitTerms_cons_of_not_tight hop, List.flatMap_cons]
          rfl

/-- Loose operators stand between terms, and tight ones inside. -/
theorem tight_of_mem_splitTerms {links : List (Operator × Binary64)} {term : Operator × Chain}
    (hmem : term ∈ (splitTerms links).2) :
    term.1.tight = false ∧ ∀ factor ∈ term.2.links, factor.1.tight = true := by
  induction links with
  | nil => cases hmem
  | cons link links ih =>
      obtain ⟨op, x⟩ := link
      cases hop : op.tight with
      | true =>
          rw [splitTerms_cons_of_tight hop] at hmem
          exact ih hmem
      | false =>
          rw [splitTerms_cons_of_not_tight hop, List.mem_cons] at hmem
          rcases hmem with rfl | hterm
          · exact ⟨hop, fun factor hfactor => (mem_splitTerms_factors hfactor).2⟩
          · exact ih hterm

end Chain

namespace Stacks

/-! ## The last operation -/

/-- Reducing leaves the value of the last operation on top. -/
theorem head?_foldl_reduce {operands : List Binary64} {ops : List Operator} {last : Operation}
    (hlast : (reductions operands ops).getLast? = some last) :
    (ops.foldl reduce operands).head? = some last.value := by
  induction ops generalizing operands with
  | nil => cases hlast
  | cons op ops ih =>
      cases ops with
      | nil =>
          have hop : operation operands op = last := Option.some.inj hlast
          rw [List.foldl_cons, List.foldl_nil, reduce_eq, hop]
          rfl
      | cons next ops =>
          rw [List.foldl_cons]
          apply ih
          rwa [reductions, reductions, List.getLast?_cons_cons] at hlast

theorem length_reductions (operands : List Binary64) (ops : List Operator) :
    (reductions operands ops).length = ops.length := by
  induction ops generalizing operands with
  | nil => rfl
  | cons op ops ih => exact congrArg (· + 1) (ih _)

/-- The operations of a walk end with the reductions after it. -/
theorem exists_operations_append (s : Stacks) (e : Expression) :
    ∃ before, s.operations e =
      before ++ reductions (s.pushAll e).operands (s.pushAll e).operators := by
  induction e generalizing s with
  | nil => exact ⟨[], rfl⟩
  | cons token rest ih =>
      obtain ⟨before, hbefore⟩ := ih (s.push token)
      refine ⟨s.pushOperations token ++ before, ?_⟩
      rw [operations, hbefore, List.append_assoc, pushAll_cons]

theorem operators_push_ne_nil {s : Stacks} (hoperators : s.operators ≠ []) (token : Token) :
    (s.push token).operators ≠ [] := by
  cases token with
  | operand value => exact hoperators
  | operator op => exact List.cons_ne_nil _ _

theorem operators_pushAll_ne_nil {s : Stacks} (hoperators : s.operators ≠ [])
    (e : Expression) : (s.pushAll e).operators ≠ [] := by
  induction e generalizing s with
  | nil => exact hoperators
  | cons token rest ih => exact ih (operators_push_ne_nil hoperators token)

/-- A walk that ends with operators on the stack ends with the value of its last operation. -/
theorem value_eq_result {s : Stacks} {e : Expression} {last : Operation}
    (hoperators : (s.pushAll e).operators ≠ [])
    (hlast : (s.operations e).getLast? = some last) : last.value = (s.pushAll e).result := by
  obtain ⟨before, hbefore⟩ := s.exists_operations_append e
  have hreductions : reductions (s.pushAll e).operands (s.pushAll e).operators ≠ [] := by
    rwa [← List.length_pos_iff, length_reductions, List.length_pos_iff]
  rw [hbefore, List.getLast?_append_of_ne_nil _ hreductions] at hlast
  have hhead : (s.pushAll e).drain.head? = some last.value := head?_foldl_reduce hlast
  obtain ⟨below, hdrain⟩ := List.head?_eq_some_iff.mp hhead
  rw [result, hdrain, popOperand]

/-! ## The walk over a chain -/

theorem operations_cons (s : Stacks) (op : Operator) (x : Binary64)
    (links : List (Operator × Binary64)) :
    s.operations (Chain.linkTokens ((op, x) :: links)) =
      reductions s.operands (s.yielding op) ++
        ((s.pushOperator op).pushOperand x).operations (Chain.linkTokens links) := rfl

theorem operations_of_tight {top : Operator} (htight : top.tight = true)
    (operands : List Binary64) (below : List Operator) (links : List (Operator × Binary64)) :
    operations ⟨operands, top :: below⟩ (Chain.linkTokens links) =
      operation operands top ::
        operations ⟨reduce operands top, below⟩ (Chain.linkTokens links) := by
  cases links with
  | nil => rfl
  | cons link links =>
      have hyields : decide (top.rank ≤ link.1.rank) = true := by
        simp [Operator.rank_eq_zero_of_tight htight]
      have hyielding : yielding ⟨operands, top :: below⟩ link.1 =
          top :: yielding ⟨reduce operands top, below⟩ link.1 :=
        List.takeWhile_cons_of_pos hyields
      rw [operations_cons, operations_cons, pushOperator_of_tight_top htight, hyielding]
      rfl

theorem operations_cons_of_tight {op : Operator} (htight : op.tight = true) (x y : Binary64)
    {below : List Binary64} {sums : List Operator}
    (hsums : ∀ sum ∈ sums, sum.tight = false) (links : List (Operator × Binary64)) :
    operations ⟨x :: below, sums⟩ (Chain.linkTokens ((op, y) :: links)) =
      ⟨op, x, y⟩ :: operations ⟨op.apply x y :: below, sums⟩ (Chain.linkTokens links) := by
  obtain ⟨hyielding, -⟩ := yielding_of_tight htight hsums (x :: below)
  rw [operations_cons, hyielding, pushOperator_of_tight htight hsums, pushOperand,
    operations_of_tight htight]
  rfl

theorem operations_cons_of_not_tight {op : Operator} (hloose : op.tight = false) (y : Binary64)
    (s : Stacks) (links : List (Operator × Binary64)) :
    s.operations (Chain.linkTokens ((op, y) :: links)) =
      reductions s.operands s.operators ++
        operations ⟨y :: s.drain, [op]⟩ (Chain.linkTokens links) := by
  have hyield : ∀ top ∈ s.operators, top.rank ≤ op.rank :=
    fun top _ => Operator.rank_le_of_not_tight hloose top
  rw [operations_cons, (yielding_of_rank_le hyield).1, pushOperator_of_yielding hyield,
    pushOperand]

/-- With a sum begun, each term is worked out when it has ended, and then added. -/
theorem operations_sum_perm {op : Operator} (hloose : op.tight = false) (sum x : Binary64)
    (links : List (Operator × Binary64)) :
    (operations ⟨[x, sum], [op]⟩ (Chain.linkTokens links)).Perm
      ((Chain.firstTerm ⟨x, links⟩).operations ++
        (Chain.splitTerms links).2.flatMap (fun term => term.2.operations) ++
        Chain.operations ⟨sum, (op, (Chain.firstTerm ⟨x, links⟩).fold) ::
          (Chain.termValues ⟨x, links⟩).links⟩) := by
  induction links generalizing op sum x with
  | nil => exact .refl _
  | cons link links ih =>
      obtain ⟨next, y⟩ := link
      cases hnext : next.tight with
      | true =>
          have hsums : ∀ top ∈ [op], top.tight = false := by simpa using hloose
          rw [operations_cons_of_tight hnext x y hsums]
          simp only [Chain.firstTerm, Chain.termValues, Chain.splitTerms_cons_of_tight hnext,
            Chain.fold_cons, Chain.operations_cons, List.cons_append]
          exact (ih hloose sum (next.apply x y)).cons _
      | false =>
          have hdrain : drain ⟨[x, sum], [op]⟩ = [op.apply sum x] := rfl
          have hreductions : reductions [x, sum] [op] = [⟨op, sum, x⟩] := rfl
          rw [operations_cons_of_not_tight hnext, hdrain, hreductions]
          simp only [Chain.firstTerm, Chain.termValues, Chain.splitTerms_cons_of_not_tight hnext,
            Chain.fold_nil, Chain.operations_nil, Chain.operations_cons, List.map_cons,
            List.flatMap_cons, List.nil_append]
          -- The term that has ended is added before the terms behind it are worked out.
          exact ((ih hnext (op.apply sum x) y).cons _).trans List.perm_middle.symm

/-- The walk over a chain from its first operand performs the operations of its terms and of their
sum. -/
theorem operations_first_perm (x : Binary64) (links : List (Operator × Binary64)) :
    (operations ⟨[x], []⟩ (Chain.linkTokens links)).Perm
      (Chain.termwiseOperations ⟨x, links⟩) := by
  induction links generalizing x with
  | nil => exact .refl _
  | cons link links ih =>
      obtain ⟨op, y⟩ := link
      cases hop : op.tight with
      | true =>
          rw [operations_cons_of_tight hop x y (by simp)]
          simp only [Chain.termwiseOperations, Chain.firstTerm, Chain.termValues,
            Chain.splitTerms_cons_of_tight hop, Chain.fold_cons, Chain.operations_cons,
            List.cons_append]
          exact (ih (op.apply x y)).cons _
      | false =>
          have hdrain : drain ⟨[x], []⟩ = [x] := rfl
          have hreductions : reductions [x] [] = [] := rfl
          rw [operations_cons_of_not_tight hop, hdrain, hreductions, List.nil_append]
          simp only [Chain.termwiseOperations, Chain.firstTerm, Chain.termValues,
            Chain.splitTerms_cons_of_not_tight hop, Chain.fold_nil, Chain.operations_nil,
            List.map_cons, List.flatMap_cons, List.nil_append]
          exact operations_sum_perm hop x y links

end Stacks

namespace Chain

/-- A chain has the value of the last operation, if there is one. -/
theorem value_eq_evaluate {c : Chain} {last : Operation}
    (hlast : c.tokens.operations.getLast? = some last) : last.value = c.tokens.evaluate := by
  obtain ⟨x, links⟩ := c
  rw [Expression.evaluate_of_alternates (alternates_tokens _)]
  cases links with
  | nil => cases hlast
  | cons link links =>
      obtain ⟨op, y⟩ := link
      have hpushed : (Stacks.pushOperator ⟨[x], []⟩ op).operators ≠ [] :=
        List.cons_ne_nil _ _
      exact Stacks.value_eq_result (Stacks.operators_pushAll_ne_nil hpushed _) hlast

/-- Evaluating a chain sums up its terms: the expression is cut before each sum or difference, each
term is worked out from left to right, and then the sum of the terms' values.  Just these
operations are performed, each on the same two operands, and the last one gives the value. -/
theorem evaluate_sums_terms (c : Chain) :
    ∃ (first : Chain) (terms : List (Operator × Chain)),
      c.tokens = first.tokens ++
          terms.flatMap (fun term => .operator term.1 :: term.2.tokens) ∧
        (∀ factor ∈ first.links, factor.1 = .multiply ∨ factor.1 = .divide) ∧
        (∀ term ∈ terms, (term.1 = .add ∨ term.1 = .subtract) ∧
          ∀ factor ∈ term.2.links, factor.1 = .multiply ∨ factor.1 = .divide) ∧
        let sum : Chain := ⟨first.fold, terms.map fun term => (term.1, term.2.fold)⟩
        c.tokens.evaluate = sum.fold ∧
          c.tokens.operations.Perm
            (first.operations ++ terms.flatMap (fun term => term.2.operations) ++
              sum.operations) ∧
          ∀ last, c.tokens.operations.getLast? = some last →
            last.value = c.tokens.evaluate := by
  refine ⟨c.firstTerm, (splitTerms c.links).2, ?_, ?_, ?_, evaluate_tokens c, ?_, ?_⟩
  · exact congrArg (Token.operand c.first :: ·) (linkTokens_splitTerms c.links)
  · intro factor hfactor
    exact Operator.tight_iff.mp (mem_splitTerms_factors hfactor).2
  · intro term hterm
    obtain ⟨hloose, hfactors⟩ := tight_of_mem_splitTerms hterm
    refine ⟨Operator.not_tight_iff.mp hloose, ?_⟩
    intro factor hfactor
    exact Operator.tight_iff.mp (hfactors factor hfactor)
  · exact Stacks.operations_first_perm c.first c.links
  · intro last hlast
    exact value_eq_evaluate hlast

end Chain

end Keypad
