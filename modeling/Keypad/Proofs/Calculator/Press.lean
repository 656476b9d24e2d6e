import Keypad.Calculator

/-!
# What a key press does

A key is refused exactly when strict mode misses an operand that the key needs, and then nothing
changes.  Any other key takes the entry to one that does not depend on strict mode or the screen,
and the screen follows.
-/

namespace Keypad

/-- Whether a key finishes the operand that is being typed. -/
def Key.needsOperand : Key → Bool
  | .operator _ | .equals => true
  | .digit _ | .clear => false

namespace Entry

def completed (entry : Entry) : Expression :=
  entry.expression ++ [.operand (.ofText entry.pending)]

def outcome (entry : Entry) : Outcome := .ofNumber entry.completed.evaluate

/-- The entry after a key that is not refused. -/
def after (entry : Entry) : Key → Entry
  | .digit digit => entry.typeDigit digit
  | .operator op => ⟨entry.completed ++ [.operator op], ""⟩
  | .equals => ⟨[], entry.outcome.text⟩
  | .clear => {}

def refuses (strict : Bool) (entry : Entry) (key : Key) : Bool :=
  strict && entry.pending.isEmpty && key.needsOperand

theorem operand_eq (strict : Bool) (entry : Entry) {key : Key} (hneeds : key.needsOperand = true) :
    entry.operand strict =
      if entry.refuses strict key then .error .emptyOperand else .ok (.ofText entry.pending) := by
  rw [operand, refuses, hneeds, Bool.and_true]

theorem commit_eq (strict : Bool) (entry : Entry) (op : Operator) :
    entry.commit strict op =
      if entry.refuses strict (.operator op) then .error .emptyOperand
      else .ok (entry.after (.operator op)) := by
  have hneeds : (Key.operator op).needsOperand = true := rfl
  rw [commit, operand_eq strict entry hneeds, after, completed, List.append_assoc]
  cases entry.refuses strict (.operator op) <;> rfl

theorem finish_eq (strict : Bool) (entry : Entry) :
    entry.finish strict =
      if entry.refuses strict .equals then .error .emptyOperand
      else .ok (entry.outcome, entry.after .equals) := by
  have hneeds : Key.equals.needsOperand = true := rfl
  rw [finish, operand_eq strict entry hneeds]
  cases entry.refuses strict .equals <;> rfl

end Entry

namespace Calculator

def refuses (calculator : Calculator) (key : Key) : Bool :=
  calculator.entry.refuses calculator.settings.strict key

def after (calculator : Calculator) (key : Key) : Calculator :=
  if key = .clear then calculator.clear else calculator.enter (calculator.entry.after key)

/-- The outcome that a key answers with, which only equals does. -/
def answer (calculator : Calculator) (key : Key) : Option Outcome :=
  if key = .equals then some calculator.entry.outcome else none

@[simp] theorem settings_after (calculator : Calculator) (key : Key) :
    (calculator.after key).settings = calculator.settings := by
  cases key <;> rfl

@[simp] theorem entry_after (calculator : Calculator) (key : Key) :
    (calculator.after key).entry = calculator.entry.after key := by
  cases key <;> rfl

@[simp] theorem refuses_digit (calculator : Calculator) (digit : Digit) :
    calculator.refuses (.digit digit) = false :=
  Bool.and_false _

@[simp] theorem refuses_clear (calculator : Calculator) : calculator.refuses .clear = false :=
  Bool.and_false _

theorem strict_of_refuses {calculator : Calculator} {key : Key}
    (hrefuses : calculator.refuses key = true) : calculator.settings.strict = true := by
  simp only [refuses, Entry.refuses, Bool.and_eq_true] at hrefuses
  exact hrefuses.1.1

/-- What pressing a key does, in every state. -/
theorem press_eq (calculator : Calculator) (key : Key) :
    calculator.press key =
      if calculator.refuses key then .error .emptyOperand
      else .ok (calculator.answer key, calculator.after key) := by
  cases key with
  | digit digit =>
      rw [refuses_digit]
      rfl
  | operator op =>
      rw [press, commit, Entry.commit_eq, ← refuses]
      cases calculator.refuses (.operator op) <;> rfl
  | equals =>
      rw [press, finish, Entry.finish_eq, ← refuses]
      cases calculator.refuses .equals <;> rfl
  | clear =>
      rw [refuses_clear]
      rfl

theorem press_of_not_refuses {calculator : Calculator} {key : Key}
    (hrefuses : calculator.refuses key = false) :
    calculator.press key = .ok (calculator.answer key, calculator.after key) := by
  rw [press_eq, hrefuses, if_neg Bool.false_ne_true]

theorem eq_of_press {calculator last : Calculator} {key : Key} {answer : Option Outcome}
    (hpress : calculator.press key = .ok (answer, last)) :
    answer = calculator.answer key ∧ last = calculator.after key := by
  rw [press_eq] at hpress
  split at hpress
  · cases hpress
  · cases hpress
    exact ⟨rfl, rfl⟩

theorem tryPress_eq (calculator : Calculator) (key : Key) :
    calculator.tryPress key =
      if calculator.refuses key then calculator else calculator.after key := by
  rw [tryPress, press_eq]
  cases calculator.refuses key <;> rfl

theorem tryPress_of_refuses {calculator : Calculator} {key : Key}
    (hrefuses : calculator.refuses key = true) : calculator.tryPress key = calculator := by
  rw [tryPress_eq, if_pos hrefuses]

theorem tryPress_of_not_refuses {calculator : Calculator} {key : Key}
    (hrefuses : calculator.refuses key = false) :
    calculator.tryPress key = calculator.after key := by
  rw [tryPress_eq, hrefuses, if_neg Bool.false_ne_true]

theorem refuses_of_strict {calculator : Calculator} (hstrict : calculator.settings.strict = true)
    (key : Key) :
    calculator.refuses key = (key.needsOperand && calculator.entry.pending.isEmpty) := by
  rw [refuses, Entry.refuses, hstrict, Bool.true_and, Bool.and_comm]

/-- What equals answers, in every state. -/
theorem finish_eq (calculator : Calculator) :
    calculator.finish =
      if calculator.settings.strict && calculator.entry.pending.isEmpty then .error .emptyOperand
      else
        .ok (calculator.entry.outcome, calculator.enter ⟨[], calculator.entry.outcome.text⟩) := by
  rw [finish, Entry.finish_eq, Entry.refuses, Key.needsOperand, Bool.and_true]
  cases calculator.settings.strict && calculator.entry.pending.isEmpty <;> rfl

@[simp] theorem settings_tryPress (calculator : Calculator) (key : Key) :
    (calculator.tryPress key).settings = calculator.settings := by
  rw [tryPress_eq]
  split
  · rfl
  · exact settings_after calculator key

/-- What every accepted key of a run keeps, the run keeps. -/
theorem pressAll_invariant {P : Calculator → Prop} {keys : List Key} {calculator : Calculator}
    (hafter : ∀ state, ∀ key ∈ keys, P state → P (state.after key)) (hstart : P calculator) :
    P (calculator.pressAll keys) := by
  induction keys generalizing calculator with
  | nil => exact hstart
  | cons key keys ih =>
      obtain ⟨hkey, hkeys⟩ := List.forall_mem_cons.mp fun k hk state => hafter state k hk
      apply ih fun state k hk => hkeys k hk state
      rw [tryPress_eq]
      split
      · exact hstart
      · exact hkey calculator hstart

@[simp] theorem settings_pressAll (calculator : Calculator) (keys : List Key) :
    (calculator.pressAll keys).settings = calculator.settings := by
  apply pressAll_invariant (P := fun state => state.settings = calculator.settings)
  · intro state key _ hstate
    rw [settings_after, hstate]
  · rfl

end Calculator

end Keypad
