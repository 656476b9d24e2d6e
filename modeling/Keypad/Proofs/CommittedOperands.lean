import Keypad.Proofs.Calculator.Press
import Keypad.Proofs.TypedNumber

/-!
# Only the first operand can be negative

A result may be negative, and its text, with whatever is typed behind it, is the first operand of the
next expression.  Committing an operand empties the pending text, and what is typed from then on
until nothing is committed are digits and points.  So no operand behind a committed one ever carries
a minus sign.
-/

namespace Keypad

def Token.operand? : Token → Option Binary64
  | operand value => some value
  | operator _ => none

/-- The operands of an expression, from left to right. -/
def Expression.operands (e : Expression) : List Binary64 := e.filterMap Token.operand?

/-- A number without a minus sign is not-a-number or has a clear sign bit. -/
theorem Binary64.clear_sign_of_unsigned {x : Binary64} (hunsigned : x.unsigned = true) :
    (x = .nan ∨ x.toBits < signBit) ∧ x ≠ .zero true := by
  have hcount : finiteCount < signBit := by decide
  constructor
  · cases x with
    | nan => exact Or.inl rfl
    | infinity negative =>
        obtain rfl : negative = false := by simpa using hunsigned
        right
        simpa [toBits] using hcount
    | finite negative magnitude =>
        obtain rfl : negative = false := by simpa using hunsigned
        right
        simpa [toBits] using magnitude.isLt.trans hcount
  · rintro rfl
    cases hunsigned

namespace Entry

/-! ## Entries that can be reached -/

/-- The entries that digits, operators, equals and clear lead to, strict or not. -/
inductive Reachable : Entry → Prop
  | clear : Reachable {}
  | digit {entry : Entry} (hreachable : Reachable entry) (d : Digit) :
    Reachable (entry.typeDigit d)
  | operator {entry later : Entry} {strict : Bool} {op : Operator} (hreachable : Reachable entry)
      (hcommit : entry.commit strict op = .ok later) : Reachable later
  | equals {entry later : Entry} {strict : Bool} {outcome : Outcome}
      (hreachable : Reachable entry) (hfinish : entry.finish strict = .ok (outcome, later)) :
    Reachable later

theorem eq_after_of_commit {entry later : Entry} {strict : Bool} {op : Operator}
    (hcommit : entry.commit strict op = .ok later) : later = entry.after (.operator op) := by
  rw [commit_eq] at hcommit
  split at hcommit
  · cases hcommit
  · exact (Except.ok.inj hcommit).symm

theorem eq_after_of_finish {entry later : Entry} {strict : Bool} {outcome : Outcome}
    (hfinish : entry.finish strict = .ok (outcome, later)) : later = entry.after .equals := by
  rw [finish_eq] at hfinish
  split at hfinish
  · cases hfinish
  · exact (Prod.mk.inj (Except.ok.inj hfinish)).2.symm

/-! ## The signs of the operands -/

/-- An operator commits one more operand. -/
theorem operands_after_operator (entry : Entry) (op : Operator) :
    (entry.after (.operator op)).expression.operands =
      entry.expression.operands ++ [.ofText entry.pending] := by
  rw [after, completed, Expression.operands, List.filterMap_append, List.filterMap_append,
    List.append_assoc]
  rfl

/-- Only the first committed operand can carry a minus sign: the later ones carry none, and behind a
committed operand there is only what digit keys type. -/
structure OnlyFirstSigned (entry : Entry) : Prop where
  later_unsigned : ∀ value ∈ entry.expression.operands.tail, value.unsigned = true
  pending_typed : entry.expression ≠ [] → ∀ c ∈ entry.pending.toList, isDigitChar c = true

theorem onlyFirstSigned_of_nothing_committed (pending : String) :
    OnlyFirstSigned ⟨[], pending⟩ where
  later_unsigned := List.forall_mem_nil _
  pending_typed := absurd rfl

theorem OnlyFirstSigned.unsigned_pending {entry : Entry} (hsigned : entry.OnlyFirstSigned)
    (hcommitted : entry.expression ≠ []) : (Binary64.ofText entry.pending).unsigned = true := by
  apply Binary64.unsigned_ofChars
  intro hminus
  exact absurd (hsigned.pending_typed hcommitted _ hminus) (by decide)

/-- No key brings a minus sign into an operand behind the first one. -/
theorem OnlyFirstSigned.after {entry : Entry} (hsigned : entry.OnlyFirstSigned) (key : Key) :
    (entry.after key).OnlyFirstSigned := by
  cases key with
  | digit d =>
      refine ⟨hsigned.later_unsigned, ?_⟩
      intro hcommitted c hc
      rw [Entry.after, pending_typeDigit, String.toList_push, List.mem_append,
        List.mem_singleton] at hc
      rcases hc with hearlier | rfl
      · exact hsigned.pending_typed hcommitted c hearlier
      · exact d.valid
  | operator op =>
      refine ⟨?_, fun _ => List.forall_mem_nil _⟩
      rw [operands_after_operator]
      cases hoperands : entry.expression.operands with
      | nil => exact List.forall_mem_nil _
      | cons first others =>
          -- Something is committed before this operand, so it was typed.
          have hcommitted : entry.expression ≠ [] := by
            intro hempty
            rw [hempty] at hoperands
            cases hoperands
          have hothers := hsigned.later_unsigned
          rw [hoperands, List.tail_cons] at hothers
          exact List.forall_mem_append.mpr
            ⟨hothers, List.forall_mem_singleton.mpr (hsigned.unsigned_pending hcommitted)⟩
  | equals => exact onlyFirstSigned_of_nothing_committed _
  | clear => exact onlyFirstSigned_of_nothing_committed _

theorem Reachable.onlyFirstSigned {entry : Entry} (hreachable : entry.Reachable) :
    entry.OnlyFirstSigned := by
  induction hreachable with
  | clear => exact onlyFirstSigned_of_nothing_committed _
  | digit _ d ih => exact ih.after (.digit d)
  | operator _ hcommit ih =>
      rw [eq_after_of_commit hcommit]
      exact ih.after _
  | equals _ hfinish ih =>
      rw [eq_after_of_finish hfinish]
      exact ih.after _

end Entry

namespace Calculator

theorem onlyFirstSigned_pressAll (settings : Settings) (keys : List Key) :
    (pressAll { settings } keys).entry.OnlyFirstSigned := by
  apply pressAll_invariant (P := fun state => state.entry.OnlyFirstSigned)
  · intro state key _ hsigned
    rw [entry_after]
    exact hsigned.after key
  · exact Entry.onlyFirstSigned_of_nothing_committed _

/-- Of the operands that an entry has committed, in whatever way it was reached, all but the first
are not-a-number or have a clear sign bit, so none is a negative zero.  As soon as one is committed,
the pending text holds digits and points only, and the operand that it means is like the later
ones. -/
theorem only_first_operand_negative {entry : Entry}
    (hreached : entry.Reachable ∨ ∃ settings keys, entry = (pressAll { settings } keys).entry) :
    (∀ value ∈ entry.expression.operands.tail,
        (value = .nan ∨ value.toBits < Binary64.signBit) ∧ value ≠ .zero true) ∧
      (entry.expression ≠ [] →
        (∀ c ∈ entry.pending.toList, c.isDigit = true ∨ c = '.') ∧
          let operand := Binary64.ofText entry.pending
          (operand = .nan ∨ operand.toBits < Binary64.signBit) ∧ operand ≠ .zero true) := by
  have hsigned : entry.OnlyFirstSigned := by
    rcases hreached with hreachable | ⟨settings, keys, rfl⟩
    · exact hreachable.onlyFirstSigned
    · exact onlyFirstSigned_pressAll settings keys
  constructor
  · intro value hvalue
    exact Binary64.clear_sign_of_unsigned (hsigned.later_unsigned value hvalue)
  · intro hcommitted
    refine ⟨?_, Binary64.clear_sign_of_unsigned (hsigned.unsigned_pending hcommitted)⟩
    intro c hc
    have htyped := hsigned.pending_typed hcommitted c hc
    rwa [isDigitChar, Bool.or_eq_true, beq_iff_eq] at htyped

/-- In `1 - 5 = * 2 + 3` the first operand is the negative result, and only that one. -/
theorem only_first_operand_negative_difference :
    let settings : Settings := { strict := true }
    let keys : List Key := [.digit ⟨'1', rfl⟩, .operator .subtract, .digit ⟨'5', rfl⟩, .equals,
      .operator .multiply, .digit ⟨'2', rfl⟩, .operator .add, .digit ⟨'3', rfl⟩]
    let entry := (pressAll { settings } keys).entry
    (entry.Reachable ∨ ∃ settings keys, entry = (pressAll { settings } keys).entry) ∧
      entry.expression.operands = [.ofText "-4", .ofText "2"] ∧ entry.pending = "3" ∧
      (Binary64.ofText "-4").unsigned = false ∧
      (∀ value ∈ entry.expression.operands.tail,
        (value = .nan ∨ value.toBits < Binary64.signBit) ∧ value ≠ .zero true) ∧
      (entry.expression ≠ [] →
        (∀ c ∈ entry.pending.toList, c.isDigit = true ∨ c = '.') ∧
          let operand := Binary64.ofText entry.pending
          (operand = .nan ∨ operand.toBits < Binary64.signBit) ∧ operand ≠ .zero true) := by
  intro settings keys entry
  have hreached : entry.Reachable ∨ ∃ settings keys, entry = (pressAll { settings } keys).entry :=
    Or.inr ⟨settings, keys, rfl⟩
  have hoperands : entry.expression.operands = [.ofText "-4", .ofText "2"] := by decide +kernel
  have hpending : entry.pending = "3" := by decide +kernel
  have hnegative : (Binary64.ofText "-4").unsigned = false := by decide +kernel
  exact ⟨hreached, hoperands, hpending, hnegative, only_first_operand_negative hreached⟩

end Calculator

end Keypad
