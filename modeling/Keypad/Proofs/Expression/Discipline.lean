import Keypad.Proofs.Expression.Malformed

/-!
# The discipline of the two stacks

An operator is pushed when all that are left below it are looser, so the ranks on the stack fall
from the bottom to the top and two operators are the most there can be.  Each reduction takes one
operator and one operand off the stacks.  At an operator's turn there is one operand more than there
are operators, and so there is after every reduction: none finds an operand missing.  An operator
at the end of an expression lacks its right operand.  The reductions after the walk are then one
operand short, and it is the last of them that notices.
-/

namespace Keypad

namespace Turn

/-- The turn after tokens depends on their number only. -/
theorem after_eq_later (turn : Turn) (e : Expression) : turn.after e = turn.later e.length := by
  induction e generalizing turn with
  | nil => rfl
  | cons token rest ih => rw [after_cons, ih, List.length_cons, later_succ]

end Turn

namespace Stacks

/-! ## Ranks on the stack -/

/-- From the bottom to the top, the ranks of the operators on the stack fall: each operator binds
tighter than those below it. -/
def RanksFall (s : Stacks) : Prop := s.operators.Pairwise fun upper lower => upper.rank < lower.rank

/-- What does not yield to an operator is looser, and not only the topmost. -/
theorem rank_lt_of_mem_staying {s : Stacks} (hranks : s.RanksFall) {op lower : Operator}
    (hmem : lower ∈ s.staying op) : op.rank < lower.rank := by
  have hfall : (s.staying op).Pairwise fun upper lower => upper.rank < lower.rank :=
    hranks.sublist (List.dropWhile_sublist _)
  obtain ⟨first, rest, hstaying⟩ := List.exists_cons_of_ne_nil (List.ne_nil_of_mem hmem)
  have hfirst : op.rank < first.rank := by
    have hstays := List.head?_dropWhile_not (fun top : Operator => decide (top.rank ≤ op.rank))
      s.operators
    rw [← staying, hstaying, List.head?_cons] at hstays
    simpa using hstays
  rw [hstaying] at hmem hfall
  rcases List.mem_cons.mp hmem with rfl | hrest
  · exact hfirst
  · exact hfirst.trans (List.rel_of_pairwise_cons hfall hrest)

theorem ranksFall_push {s : Stacks} (hranks : s.RanksFall) (token : Token) :
    (s.push token).RanksFall := by
  cases token with
  | operand value => exact hranks
  | operator op =>
      apply List.pairwise_cons.mpr
      constructor
      · intro lower hmem
        exact rank_lt_of_mem_staying hranks hmem
      · exact hranks.sublist (List.dropWhile_sublist _)

theorem ranksFall_pushAll {s : Stacks} (hranks : s.RanksFall) (e : Expression) :
    (s.pushAll e).RanksFall := by
  induction e generalizing s with
  | nil => exact hranks
  | cons token rest ih => exact ih (ranksFall_push hranks token)

/-- With two ranks only, there is room for two operators on the stack. -/
theorem operators_of_ranksFall {s : Stacks} (hranks : s.RanksFall) :
    s.operators = [] ∨ (∃ op, s.operators = [op]) ∨
      ∃ upper lower, s.operators = [upper, lower] ∧
        (upper = .multiply ∨ upper = .divide) ∧ (lower = .add ∨ lower = .subtract) := by
  rw [RanksFall] at hranks
  match hoperators : s.operators with
  | [] => exact Or.inl rfl
  | [op] => exact Or.inr (Or.inl ⟨op, rfl⟩)
  | [upper, lower] =>
      rw [hoperators, List.pairwise_pair, Operator.rank_lt_iff] at hranks
      exact Or.inr (Or.inr ⟨upper, lower, rfl, Operator.tight_iff.mp hranks.2,
        Operator.not_tight_iff.mp hranks.1⟩)
  | first :: second :: third :: rest =>
      -- Three ranks that differ would need one above those there are.
      rw [hoperators] at hranks
      have hsecond : first.rank < second.rank :=
        List.rel_of_pairwise_cons hranks List.mem_cons_self
      have hthird : second.rank < third.rank :=
        List.rel_of_pairwise_cons hranks.of_cons List.mem_cons_self
      have hmost := third.rank_le_one
      omega

/-! ## Reductions one at a time -/

/-- The operand that a reduction reads first, unless it is missing. -/
def right? (s : Stacks) : Option Binary64 := s.operands.head?

/-- The operand that a reduction reads from those that the right one leaves, unless it is
missing. -/
def left? (s : Stacks) : Option Binary64 := (popOperand s.operands).2.head?

/-- Whether a reduction finds both of its operands. -/
def FindsOperands (s : Stacks) : Prop := s.left?.isSome ∧ s.right?.isSome

/-- The operation that reduces the operator on top; what is missing is read as not-a-number. -/
def topOperation? (s : Stacks) : Option Operation :=
  s.operators.head?.map fun op => ⟨op, s.left?.getD .nan, s.right?.getD .nan⟩

/-- The stacks that each reduction finds as long as the operator on top meets a condition, in
order. -/
def reducingWhile (yields : Operator → Bool) (operands : List Binary64) :
    List Operator → List Stacks
  | [] => []
  | top :: below =>
    if yields top then ⟨operands, top :: below⟩ :: reducingWhile yields (reduce operands top) below
    else []

/-- The stacks that the reductions before a token find. -/
def pushReductions (s : Stacks) : Token → List Stacks
  | .operand _ => []
  | .operator op => reducingWhile (fun top => top.rank ≤ op.rank) s.operands s.operators

/-- The stacks that the reductions of a walk find. -/
def walkReductions (s : Stacks) : Expression → List Stacks
  | [] => []
  | token :: rest => s.pushReductions token ++ (s.push token).walkReductions rest

/-- The stacks that the reductions after a walk find. -/
def drainReductions (s : Stacks) : List Stacks :=
  reducingWhile (fun _ => true) s.operands s.operators

theorem findsOperands_iff {s : Stacks} : s.FindsOperands ↔ 2 ≤ s.operands.length := by
  obtain ⟨operands, operators⟩ := s
  match operands with
  | [] => simp [FindsOperands, left?, popOperand]
  | [_] => simp [FindsOperands, left?, popOperand]
  | _ :: _ :: _ => simp [FindsOperands, left?, right?, popOperand]

theorem topOperation?_cons (operands : List Binary64) (op : Operator) (below : List Operator) :
    topOperation? ⟨operands, op :: below⟩ = some (operation operands op) := by
  match operands with
  | [] => rfl
  | [_] => rfl
  | _ :: _ :: _ => rfl

theorem map_topOperation?_reducingWhile (yields : Operator → Bool) (operands : List Binary64)
    (ops : List Operator) :
    (reducingWhile yields operands ops).map topOperation? =
      (reductions operands (ops.takeWhile yields)).map some := by
  induction ops generalizing operands with
  | nil => rfl
  | cons top below ih =>
      cases hyields : yields top with
      | true =>
          rw [reducingWhile, if_pos hyields, List.takeWhile_cons_of_pos hyields, reductions,
            List.map_cons, List.map_cons, topOperation?_cons, ih]
      | false =>
          rw [reducingWhile, hyields, List.takeWhile_cons_of_neg (by simp [hyields])]
          rfl

/-- The reductions during and after a walk are the operations of the evaluation. -/
theorem map_topOperation?_reductions (s : Stacks) (e : Expression) :
    (s.walkReductions e ++ (s.pushAll e).drainReductions).map topOperation? =
      (s.operations e).map some := by
  induction e generalizing s with
  | nil =>
      have hall : s.operators.takeWhile (fun _ => true) = s.operators :=
        List.takeWhile_eq_self_iff.mpr fun _ _ => rfl
      rw [walkReductions, List.nil_append, pushAll_nil, drainReductions,
        map_topOperation?_reducingWhile, hall, operations]
  | cons token rest ih =>
      have hpush : (s.pushReductions token).map topOperation? =
          (s.pushOperations token).map some := by
        cases token with
        | operand value => rfl
        | operator op => exact map_topOperation?_reducingWhile _ _ _
      rw [walkReductions, List.append_assoc, List.map_append, pushAll_cons, ih, hpush, operations,
        List.map_append]

/-! ## What reductions find -/

/-- A reduction of operands that are there keeps the number of those that belong to the operators
below. -/
theorem balanced_reduce {turn : Turn} {operands : List Binary64} {top : Operator}
    {below : List Operator} (hbalanced : Balanced turn ⟨operands, top :: below⟩)
    (hfinds : FindsOperands ⟨operands, top :: below⟩) :
    Balanced turn ⟨reduce operands top, below⟩ := by
  have htwo : 2 ≤ operands.length := findsOperands_iff.mp hfinds
  simp only [Balanced, length_reduce, List.length_cons] at hbalanced ⊢
  omega

/-- At an operator's turn reductions find one operand more than there are operators, and ranks that
fall, up to the last one. -/
theorem reducingWhile_spec {yields : Operator → Bool} {operands : List Binary64}
    {ops : List Operator} (hbalanced : Balanced .operator ⟨operands, ops⟩)
    (hranks : RanksFall ⟨operands, ops⟩) {found : Stacks}
    (hmem : found ∈ reducingWhile yields operands ops) :
    found.RanksFall ∧ found.operands.length = found.operators.length + 1 ∧
      found.FindsOperands := by
  induction ops generalizing operands with
  | nil => cases hmem
  | cons top below ih =>
      have hlength : operands.length = (top :: below).length + 1 := hbalanced
      have hfinds : FindsOperands ⟨operands, top :: below⟩ := by
        apply findsOperands_iff.mpr
        simp only [hlength, List.length_cons]
        omega
      cases hyields : yields top with
      | true =>
          rw [reducingWhile, if_pos hyields] at hmem
          rcases List.mem_cons.mp hmem with rfl | hlater
          · exact ⟨hranks, hlength, hfinds⟩
          · exact ih (balanced_reduce hbalanced hfinds) hranks.of_cons hlater
      | false =>
          rw [reducingWhile, hyields] at hmem
          cases hmem

/-- The reductions of a walk over tokens in turn find both operands. -/
theorem walkReductions_spec {turn : Turn} {s : Stacks} {e : Expression}
    (hbalanced : s.Balanced turn) (hranks : s.RanksFall) (hturn : e.inTurn turn = true)
    {found : Stacks} (hmem : found ∈ s.walkReductions e) :
    found.RanksFall ∧ found.operands.length = found.operators.length + 1 ∧
      found.FindsOperands := by
  induction e generalizing turn s with
  | nil => cases hmem
  | cons token rest ih =>
      simp only [Expression.inTurn, Bool.and_eq_true] at hturn
      obtain ⟨hfits, hrest⟩ := hturn
      rcases List.mem_append.mp hmem with hpush | hlater
      · cases token with
        | operand value => cases hpush
        | operator op =>
            cases turn with
            | operand => cases hfits
            | operator => exact reducingWhile_spec hbalanced hranks hpush
      · exact ih (balanced_push hbalanced hfits) (ranksFall_push hranks token) hrest hlater

/-- With as many operands as operators, all reductions find both operands but the last one, which
finds the right one only. -/
theorem exists_reducingWhile_append {operands : List Binary64} {ops : List Operator}
    (hbalanced : Balanced .operand ⟨operands, ops⟩) (hne : ops ≠ []) :
    ∃ earlier last, reducingWhile (fun _ => true) operands ops = earlier ++ [last] ∧
      (∀ found ∈ earlier, found.FindsOperands) ∧ last.right?.isSome ∧ last.left? = none := by
  induction ops generalizing operands with
  | nil => exact absurd rfl hne
  | cons top below ih =>
      have hlength : operands.length = (top :: below).length := hbalanced
      cases below with
      | nil =>
          -- The one operand that is left is read first, as the right one.
          obtain ⟨x, rfl⟩ := List.length_eq_one_iff.mp hlength
          exact ⟨[], ⟨[x], [top]⟩, rfl, by simp, rfl, rfl⟩
      | cons next below =>
          have hfinds : FindsOperands ⟨operands, top :: next :: below⟩ := by
            apply findsOperands_iff.mpr
            simp only [hlength, List.length_cons]
            omega
          obtain ⟨earlier, last, hlast, hearlier, hmissing⟩ :=
            ih (balanced_reduce hbalanced hfinds) (List.cons_ne_nil _ _)
          refine ⟨⟨operands, top :: next :: below⟩ :: earlier, last, ?_, ?_, hmissing⟩
          · rw [reducingWhile, if_pos rfl, hlast, List.cons_append]
          · exact List.forall_mem_cons.mpr ⟨hfinds, hearlier⟩

end Stacks

namespace Expression

/-- A token that comes in turn leaves one operand more than there are operators if it is an operand,
and as many if it is an operator. -/
theorem length_operands_of_alternates_concat {before : Expression} {token : Token}
    (halternates : (before ++ [token]).alternates = true) :
    (Stacks.pushAll {} (before ++ [token])).operands.length =
      (Stacks.pushAll {} (before ++ [token])).operators.length +
        if token.fits .operand then 1 else 0 := by
  have hbalanced := balanced_of_alternates halternates
  rw [alternates, inTurn_concat, Bool.and_eq_true] at halternates
  obtain ⟨-, hfits⟩ := halternates
  rw [Turn.after_append, Turn.after_cons, Turn.after_nil] at hbalanced
  generalize Turn.after .operand before = turn at hfits hbalanced
  cases turn with
  | operand =>
      cases token with
      | operand x => exact hbalanced
      | operator op => cases hfits
  | operator =>
      cases token with
      | operand x => cases hfits
      | operator op => exact hbalanced

/-- An even number of tokens in turn ends on an operator, which is on the stack then. -/
theorem operators_ne_nil_of_even_length {e : Expression} (halternates : e.alternates = true)
    (heven : e.length % 2 = 0) (hne : e ≠ []) : (Stacks.pushAll {} e).operators ≠ [] := by
  have hbalanced := balanced_of_alternates halternates
  rw [Turn.after_eq_later, Turn.later, if_pos heven] at hbalanced
  obtain ⟨before, token, rfl⟩ := (List.eq_nil_or_concat' e).resolve_left hne
  cases token with
  | operand x =>
      have hmore := length_operands_of_alternates_concat halternates
      exact absurd (hmore.symm.trans hbalanced) (Nat.succ_ne_self _)
  | operator op => exact Stacks.operators_pushAll_concat_ne_nil {} before op

/-- Tokens in turn keep the two stacks of their evaluation in step.  After any of them the ranks on
the operator stack fall, so it holds two operators at most, and there is one operand more than there
are operators after an operand and as many after an operator.  The reductions of the walk therefore
find both of their operands.  If the last token is an operand, those after the walk do too.  If it
is an operator, the very last one lacks its left operand, and no other misses any.  Either way the
value is the one operand that is left. -/
theorem evaluate_keeps_stacks_in_step {e : Expression} (halternates : e.alternates = true) :
    (∀ before after, e = before ++ after →
      ∃ s, Stacks.walk? .operand {} before = some s ∧ s.RanksFall ∧
        (s.operators = [] ∨ (∃ op, s.operators = [op]) ∨
          ∃ upper lower, s.operators = [upper, lower] ∧
            (upper = .multiply ∨ upper = .divide) ∧ (lower = .add ∨ lower = .subtract)) ∧
        (∀ earlier x, before = earlier ++ [.operand x] →
          s.operands.length = s.operators.length + 1) ∧
        (∀ earlier op, before = earlier ++ [.operator op] →
          s.operands.length = s.operators.length)) ∧
      ∃ final, Stacks.walk? .operand {} e = some final ∧
        (Stacks.walkReductions {} e ++ final.drainReductions).map Stacks.topOperation? =
          e.operations.map some ∧
        (∀ found ∈ Stacks.walkReductions {} e, found.RanksFall ∧
          found.operands.length = found.operators.length + 1 ∧ found.FindsOperands) ∧
        (e.length % 2 = 1 →
          (∀ found ∈ final.drainReductions, found.FindsOperands) ∧ final.drain = [e.evaluate]) ∧
        (e.length % 2 = 0 → e ≠ [] →
          (∃ earlier last, final.drainReductions = earlier ++ [last] ∧
            (∀ found ∈ earlier, found.FindsOperands) ∧
              last.right?.isSome ∧ last.left? = none) ∧
            final.drain = [e.evaluate]) := by
  have hstart : Stacks.Balanced .operand {} := rfl
  have hempty : Stacks.RanksFall {} := List.Pairwise.nil
  constructor
  · rintro before after rfl
    have hbefore : before.alternates = true := by
      rw [alternates, inTurn_append, Bool.and_eq_true] at halternates
      exact halternates.1
    have hranks := Stacks.ranksFall_pushAll hempty before
    refine ⟨_, walk?_of_alternates hbefore, hranks, Stacks.operators_of_ranksFall hranks, ?_, ?_⟩
    · rintro earlier x rfl
      exact length_operands_of_alternates_concat hbefore
    · rintro earlier op rfl
      exact length_operands_of_alternates_concat hbefore
  · have hbalanced := balanced_of_alternates halternates
    have hranks := Stacks.ranksFall_pushAll hempty e
    rw [Turn.after_eq_later] at hbalanced
    refine ⟨_, walk?_of_alternates halternates, Stacks.map_topOperation?_reductions {} e,
      ?_, ?_, ?_⟩
    · intro found hmem
      exact Stacks.walkReductions_spec hstart hempty halternates hmem
    · intro hodd
      rw [Turn.later, if_neg (by omega)] at hbalanced
      constructor
      · intro found hmem
        exact (Stacks.reducingWhile_spec hbalanced hranks hmem).2.2
      · rw [evaluate_of_alternates halternates]
        exact Stacks.drain_eq_result hbalanced
    · intro heven hne
      rw [Turn.later, if_pos heven] at hbalanced
      have hoperators := operators_ne_nil_of_even_length halternates heven hne
      constructor
      · exact Stacks.exists_reducingWhile_append hbalanced hoperators
      · rw [evaluate_of_alternates halternates]
        apply Stacks.drain_eq_result_of_ne_nil hbalanced
        have hnan := Stacks.nan_mem_foldl_reduce_of_length_le hoperators (Nat.le_of_eq hbalanced)
        exact List.ne_nil_of_mem hnan

/-- In `6 - 8 / 2 * 3` all reductions find both operands.  Without the `3` there are still two
operators to be reduced after the walk, and the difference lacks its left operand. -/
theorem evaluate_keeps_stacks_in_step_difference :
    let difference : Expression := [.operand (.ofBits 0x4018000000000000), .operator .subtract,
      .operand (.ofBits 0x4020000000000000), .operator .divide,
      .operand (.ofBits 0x4000000000000000)]
    let unfinished : Expression := difference ++ [.operator .multiply]
    let finished : Expression := unfinished ++ [.operand (.ofBits 0x4008000000000000)]
    unfinished.alternates = true ∧ finished.alternates = true ∧
      unfinished.length % 2 = 0 ∧ unfinished ≠ [] ∧ finished.length % 2 = 1 ∧
      (∃ s, Stacks.walk? .operand {} unfinished = some s ∧ s.RanksFall ∧
        s.operators = [.multiply, .subtract] ∧ s.operands.length = s.operators.length ∧
        (∃ earlier last, s.drainReductions = earlier ++ [last] ∧
          (∀ found ∈ earlier, found.FindsOperands) ∧
            last.right?.isSome ∧ last.left? = none) ∧
          s.drain = [unfinished.evaluate]) ∧
      (Stacks.walkReductions {} finished).length = 1 ∧
      (∀ found ∈ Stacks.walkReductions {} finished, found.FindsOperands) ∧
      ∃ s, Stacks.walk? .operand {} finished = some s ∧
        (∀ found ∈ s.drainReductions, found.FindsOperands) ∧ s.drain = [finished.evaluate] := by
  intro difference unfinished finished
  have hunfinished : unfinished.alternates = true := rfl
  have hfinished : finished.alternates = true := rfl
  have heven : unfinished.length % 2 = 0 := by decide
  have hodd : finished.length % 2 = 1 := by decide
  have hne : unfinished ≠ [] := List.cons_ne_nil _ _
  obtain ⟨hbefore, final, hwalk, -, -, -, hdrain⟩ := evaluate_keeps_stacks_in_step hunfinished
  obtain ⟨s, hs, hranks, -, -, hlength⟩ := hbefore unfinished [] rfl
  obtain rfl : s = final := Option.some.inj (hs.symm.trans hwalk)
  have hoperators : s.operators = [.multiply, .subtract] := by
    have hmap : (Stacks.walk? .operand {} unfinished).map Stacks.operators =
        some [.multiply, .subtract] := rfl
    rw [hwalk] at hmap
    exact Option.some.inj hmap
  obtain ⟨-, whole, hwhole, -, hfound, hvalue, -⟩ := evaluate_keeps_stacks_in_step hfinished
  refine ⟨hunfinished, hfinished, heven, hne, hodd, ?_, rfl, ?_, whole, hwhole, hvalue hodd⟩
  · exact ⟨s, hwalk, hranks, hoperators, hlength difference .multiply rfl, hdrain heven hne⟩
  · intro found hmem
    exact (hfound found hmem).2.2

end Expression

end Keypad
