import Keypad.Proofs.Calculator.Press
import Keypad.Proofs.Expression.Precedence
import Mathlib.Data.List.DropRight

/-!
# The entry as a reading of the accepted keys

The accepted keys of a run are cut at the last clear or equals.  Before the cut only an outcome's
text is left, which is carried into the first operand.  After it the keys spell operands with
operators between them: all but the last operand are committed with their operators, the last
one is pending, and together they are the chain that equals evaluates.
-/

namespace Keypad

/-! ## Accepted keys -/

/-- A key that was accepted, and the outcome it answered with. -/
structure Press where
  key : Key
  outcome : Option Outcome
  deriving DecidableEq

/-- Whether a key leaves nothing committed. -/
def Key.cuts : Key → Bool
  | .equals | .clear => true
  | .digit _ | .operator _ => false

theorem Key.cuts_eq_false_iff {key : Key} :
    key.cuts = false ↔ key ≠ .equals ∧ key ≠ .clear := by
  cases key <;> simp [cuts]

/-- The presses that a calculator accepts when keys are pressed in turn. -/
def Calculator.accepted (calculator : Calculator) : List Key → List Press
  | [] => []
  | key :: rest =>
    match calculator.press key with
    | .ok (outcome, after) => ⟨key, outcome⟩ :: after.accepted rest
    | .error _ => calculator.accepted rest

namespace Press

def keeps (press : Press) : Bool := !press.key.cuts

/-- The text that the last cut leaves: that of an outcome, or nothing after a clear and at the
start. -/
def carried (history : List Press) : String :=
  match (history.rdropWhile keeps).getLast? with
  | some ⟨.equals, some outcome⟩ => outcome.text
  | _ => ""

def sinceCut (history : List Press) : List Key :=
  (history.rtakeWhile keeps).map key

theorem carried_concat_of_cuts (history : List Press) {press : Press}
    (hkeeps : ¬press.keeps = true) : carried (history ++ [press]) = carried [press] := by
  have hsingle := List.rdropWhile_concat_neg keeps [] press hkeeps
  rw [List.nil_append] at hsingle
  rw [carried, carried, List.rdropWhile_concat_neg _ _ _ hkeeps, hsingle,
    List.getLast?_concat, List.getLast?_singleton]

theorem sinceCut_concat_of_cuts (history : List Press) {press : Press}
    (hkeeps : ¬press.keeps = true) : sinceCut (history ++ [press]) = [] := by
  rw [sinceCut, List.rtakeWhile_concat_neg _ _ _ hkeeps, List.map_nil]

theorem carried_concat_of_keeps (history : List Press) {press : Press}
    (hkeeps : press.keeps = true) : carried (history ++ [press]) = carried history := by
  rw [carried, carried, List.rdropWhile_concat_pos _ _ _ hkeeps]

theorem sinceCut_concat_of_keeps (history : List Press) {press : Press}
    (hkeeps : press.keeps = true) :
    sinceCut (history ++ [press]) = sinceCut history ++ [press.key] := by
  rw [sinceCut, sinceCut, List.rtakeWhile_concat_pos _ _ _ hkeeps, List.map_append,
    List.map_singleton]

end Press

/-! ## Operands spelled with keys -/

/-- Keys between two cuts: the digits of the first operand, and each operator with the digits of
the operand after it. -/
structure Typed where
  first : List Digit
  groups : List (Operator × List Digit)
  deriving DecidableEq

namespace Typed

def keys (typed : Typed) : List Key :=
  typed.first.map .digit ++
    typed.groups.flatMap fun group => .operator group.1 :: group.2.map .digit

def digitText (ds : List Digit) : String := .ofList (ds.map Digit.char)

/-- Every operand but the last, each with the operator after it; the first one is given by its
text. -/
def committed (text : String) : List (Operator × List Digit) → Expression
  | [] => []
  | (op, ds) :: groups =>
    .operand (.ofText text) :: .operator op :: committed (digitText ds) groups

def pending (text : String) : List (Operator × List Digit) → String
  | [] => text
  | (_, ds) :: groups => pending (digitText ds) groups

def firstText (carried : String) (typed : Typed) : String := carried ++ digitText typed.first

/-- The entry that the keys make of a carried text. -/
def entry (carried : String) (typed : Typed) : Entry :=
  ⟨committed (typed.firstText carried) typed.groups, pending (typed.firstText carried) typed.groups⟩

def chain (carried : String) (typed : Typed) : Chain :=
  ⟨.ofText (typed.firstText carried),
    typed.groups.map fun group => (group.1, .ofText (digitText group.2))⟩

@[simp] theorem digitText_nil : digitText [] = "" := rfl

theorem digitText_concat (ds : List Digit) (d : Digit) :
    digitText (ds ++ [d]) = (digitText ds).push d.char := by
  simp [digitText]

theorem firstText_concat (carried : String) (ds : List Digit) (d : Digit)
    (groups : List (Operator × List Digit)) :
    firstText carried ⟨ds ++ [d], groups⟩ = (firstText carried ⟨ds, groups⟩).push d.char := by
  apply String.toList_injective
  simp [firstText, digitText_concat]

theorem committed_concat (text : String) (groups : List (Operator × List Digit))
    (op : Operator) (ds : List Digit) :
    committed text (groups ++ [(op, ds)]) =
      committed text groups ++ [.operand (.ofText (pending text groups)), .operator op] := by
  induction groups generalizing text with
  | nil => rfl
  | cons group groups ih => simp [committed, pending, ih]

theorem pending_concat (text : String) (groups : List (Operator × List Digit))
    (op : Operator) (ds : List Digit) :
    pending text (groups ++ [(op, ds)]) = digitText ds := by
  induction groups generalizing text with
  | nil => rfl
  | cons group groups ih => exact ih (digitText group.2)

theorem committed_append_pending (text : String) (groups : List (Operator × List Digit)) :
    committed text groups ++ [Token.operand (.ofText (pending text groups))] =
      Chain.tokens ⟨.ofText text,
        groups.map fun group => (group.1, .ofText (digitText group.2))⟩ := by
  induction groups generalizing text with
  | nil => rfl
  | cons group groups ih =>
      have htail := ih (digitText group.2)
      simp only [Chain.tokens] at htail
      simp [committed, pending, Chain.tokens, htail]

theorem completed_entry (carried : String) (typed : Typed) :
    (typed.entry carried).completed = (typed.chain carried).tokens := by
  rw [Entry.completed, entry, committed_append_pending, chain]

theorem outcome_entry (carried : String) (typed : Typed) :
    (typed.entry carried).outcome = .ofNumber (typed.chain carried).value := by
  rw [Entry.outcome, completed_entry, Chain.evaluate_tokens]

/-! ## One more key -/

theorem exists_typeDigit (typed : Typed) (d : Digit) :
    ∃ later : Typed, later.keys = typed.keys ++ [.digit d] ∧
      ∀ carried, later.entry carried = (typed.entry carried).after (.digit d) := by
  obtain ⟨first, groups⟩ := typed
  rcases List.eq_nil_or_concat groups with rfl | ⟨before, ⟨op, ds⟩, rfl⟩
  · refine ⟨⟨first ++ [d], []⟩, by simp [keys], ?_⟩
    intro carried
    simp [entry, committed, pending, firstText_concat, Entry.after, Entry.typeDigit]
  · refine ⟨⟨first, before ++ [(op, ds ++ [d])]⟩, by simp [keys], ?_⟩
    intro carried
    simp [entry, committed_concat, pending_concat, firstText, digitText_concat, Entry.after,
      Entry.typeDigit]

theorem exists_commit (typed : Typed) (op : Operator) :
    ∃ later : Typed, later.keys = typed.keys ++ [.operator op] ∧
      ∀ carried, later.entry carried = (typed.entry carried).after (.operator op) := by
  refine ⟨⟨typed.first, typed.groups ++ [(op, [])]⟩, by simp [keys], ?_⟩
  intro carried
  simp [entry, committed_concat, pending_concat, firstText, Entry.after, Entry.completed]

theorem exists_after (typed : Typed) {key : Key} (hcuts : key.cuts = false) :
    ∃ later : Typed, later.keys = typed.keys ++ [key] ∧
      ∀ carried, later.entry carried = (typed.entry carried).after key := by
  cases key with
  | digit d => exact typed.exists_typeDigit d
  | operator op => exact typed.exists_commit op
  | equals => cases hcuts
  | clear => cases hcuts

end Typed

/-! ## Runs -/

/-- An entry reads a history if it is what the keys since the last cut make of the carried text. -/
def Reads (history : List Press) (entry : Entry) : Prop :=
  ∃ typed : Typed, Press.sinceCut history = typed.keys ∧
    entry = typed.entry (Press.carried history)

/-- A cut leaves an entry with nothing committed and the text that it carries. -/
theorem reads_concat_of_cuts (history : List Press) {press : Press}
    (hkeeps : ¬press.keeps = true) :
    Reads (history ++ [press]) ⟨[], Press.carried [press]⟩ := by
  refine ⟨⟨[], []⟩, Press.sinceCut_concat_of_cuts history hkeeps, ?_⟩
  rw [Press.carried_concat_of_cuts history hkeeps]
  simp [Typed.entry, Typed.committed, Typed.pending, Typed.firstText]

/-- A key that does not cut adds to the entry what it adds to the keys. -/
theorem Reads.concat_of_keeps {history : List Press} {entry : Entry}
    (hreads : Reads history entry) {press : Press} (hkeeps : press.keeps = true) :
    Reads (history ++ [press]) (entry.after press.key) := by
  obtain ⟨typed, hkeys, hentry⟩ := hreads
  obtain ⟨later, hlater, hafter⟩ := typed.exists_after (by simpa [Press.keeps] using hkeeps)
  refine ⟨later, ?_, ?_⟩
  · rw [Press.sinceCut_concat_of_keeps history hkeeps, hkeys, hlater]
  · rw [Press.carried_concat_of_keeps history hkeeps, hafter, hentry]

namespace Calculator

theorem accepted_cons (calculator : Calculator) (key : Key) (rest : List Key) :
    calculator.accepted (key :: rest) =
      if calculator.refuses key then calculator.accepted rest
      else ⟨key, calculator.answer key⟩ :: (calculator.after key).accepted rest := by
  rw [accepted, press_eq]
  cases calculator.refuses key <;> rfl

/-- One more accepted key takes an entry that reads the history to one that reads the longer
history. -/
theorem reads_after {history : List Press} {calculator : Calculator}
    (hreads : Reads history calculator.entry) (key : Key) :
    Reads (history ++ [⟨key, calculator.answer key⟩]) (calculator.after key).entry := by
  rw [entry_after]
  cases key with
  | digit d => exact hreads.concat_of_keeps rfl
  | operator op => exact hreads.concat_of_keeps rfl
  | equals => exact reads_concat_of_cuts history Bool.false_ne_true
  | clear => exact reads_concat_of_cuts history Bool.false_ne_true

theorem reads_pressAll {history : List Press} {calculator : Calculator}
    (hreads : Reads history calculator.entry) (keys : List Key) :
    Reads (history ++ calculator.accepted keys) (calculator.pressAll keys).entry := by
  induction keys generalizing history calculator with
  | nil => simpa [accepted] using hreads
  | cons key keys ih =>
      rw [pressAll_cons, tryPress_eq, accepted_cons]
      cases calculator.refuses key with
      | true => exact ih hreads
      | false =>
          have hlater := ih (reads_after hreads key)
          rw [List.append_assoc] at hlater
          exact hlater

/-- Every state of a run from a new calculator reads the keys accepted so far. -/
theorem reads_accepted (settings : Settings) (keys : List Key) :
    Reads (accepted { settings } keys) (pressAll { settings } keys).entry :=
  @reads_pressAll [] { settings } ⟨⟨[], []⟩, rfl, rfl⟩ keys

/-! ## The state after any run -/

/-- The state after a run is a reading of the accepted keys since the last cut, and equals gives
the outcome of the operands and operators that they spell, by precedence. -/
theorem entry_and_finish_of_accepted (settings : Settings) (keys : List Key) :
    let calculator := pressAll { settings } keys
    let history := accepted { settings } keys
    ∃ (ds : List Digit) (groups : List (Operator × List Digit)),
      Press.sinceCut history = ds.map .digit ++
          groups.flatMap (fun group => .operator group.1 :: group.2.map .digit) ∧
        let text := Press.carried history ++ Typed.digitText ds
        let outcome := Outcome.ofNumber (Chain.value ⟨.ofText text,
          groups.map fun group => (group.1, .ofText (Typed.digitText group.2))⟩)
        calculator.entry.expression = Typed.committed text groups ∧
        calculator.entry.pending = Typed.pending text groups ∧
        calculator.finish =
          if settings.strict && calculator.entry.pending.isEmpty then .error .emptyOperand
          else .ok (outcome, calculator.enter ⟨[], outcome.text⟩) := by
  obtain ⟨typed, hkeys, hentry⟩ := reads_accepted settings keys
  refine ⟨typed.first, typed.groups, hkeys, ?_, ?_, ?_⟩
  · rw [hentry, Typed.entry, Typed.firstText]
  · rw [hentry, Typed.entry, Typed.firstText]
  · have houtcome := typed.outcome_entry (Press.carried (accepted { settings } keys))
    rw [← hentry] at houtcome
    rw [finish_eq, settings_pressAll, houtcome]
    rfl

end Calculator

end Keypad
