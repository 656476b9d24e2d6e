import Keypad.Proofs.Calculator.History
import Keypad.Proofs.Calculator.Reuse
import Keypad.Proofs.Expression.FirstOperand
import Keypad.Proofs.Expression.RunningTotal
import Keypad.Proofs.Screen
import Keypad.Proofs.TypedNumber

/-!
# Equals before an operator with a running total

Digits and operators only add to what is committed, so two runs of the same such keys add the
same tokens behind whatever was committed before.  Pressing equals before an operator replaces
what is committed by one operand, the settled value so far.  Where there is a running total this
changes neither the answer to the final equals nor any part of the state after it.
-/

namespace Keypad

/-! ## Keys typed behind committed tokens -/

namespace Entry

/-- An entry with tokens committed before its own. -/
def behind (e : Expression) (entry : Entry) : Entry := ⟨e ++ entry.expression, entry.pending⟩

theorem after_behind (e : Expression) (entry : Entry) {key : Key} (hcuts : key.cuts = false) :
    (entry.behind e).after key = (entry.after key).behind e := by
  cases key with
  | digit d => rfl
  | operator op => simp [behind, after, completed]
  | equals => cases hcuts
  | clear => cases hcuts

end Entry

namespace Calculator

theorem entry_tryPress_behind {c d : Calculator} {e : Expression} {key : Key}
    (hsettings : c.settings = d.settings) (hentry : c.entry = d.entry.behind e)
    (hcuts : key.cuts = false) :
    (c.tryPress key).entry = (d.tryPress key).entry.behind e := by
  have hrefuses : c.refuses key = d.refuses key := by
    rw [refuses, refuses, hsettings, hentry]
    rfl
  rw [tryPress_eq, tryPress_eq, hrefuses]
  cases d.refuses key with
  | true => exact hentry
  | false =>
      simp only [Bool.false_eq_true, if_false, entry_after]
      rw [hentry, Entry.after_behind e d.entry hcuts]

theorem entry_pressAll_behind {c d : Calculator} {e : Expression} {keys : List Key}
    (hsettings : c.settings = d.settings) (hentry : c.entry = d.entry.behind e)
    (hcuts : ∀ key ∈ keys, key.cuts = false) :
    (c.pressAll keys).entry = (d.pressAll keys).entry.behind e := by
  induction keys generalizing c d with
  | nil => exact hentry
  | cons key keys ih =>
      obtain ⟨hkey, hkeys⟩ := List.forall_mem_cons.mp hcuts
      apply ih _ _ hkeys
      · rw [settings_tryPress, settings_tryPress, hsettings]
      · exact entry_tryPress_behind hsettings hentry hkey

/-! ## Entries without a cut -/

theorem key_mem_of_mem_accepted {calculator : Calculator} {keys : List Key} {press : Press}
    (hmem : press ∈ calculator.accepted keys) : press.key ∈ keys := by
  induction keys generalizing calculator with
  | nil => cases hmem
  | cons key keys ih =>
      rw [accepted_cons] at hmem
      split at hmem
      · exact List.mem_cons_of_mem _ (ih hmem)
      · rcases List.mem_cons.mp hmem with rfl | hlater
        · exact List.mem_cons_self
        · exact List.mem_cons_of_mem _ (ih hlater)

/-- Without a cut, a new calculator holds what the accepted keys spell. -/
theorem exists_typed_of_not_cuts (settings : Settings) {keys : List Key}
    (hcuts : ∀ key ∈ keys, key.cuts = false) :
    ∃ typed : Typed, (pressAll { settings } keys).entry = typed.entry "" := by
  obtain ⟨typed, -, hentry⟩ := reads_accepted settings keys
  have hkeeps : ∀ press ∈ accepted { settings } keys, press.keeps = true := by
    intro press hpress
    rw [Press.keeps, hcuts press.key (key_mem_of_mem_accepted hpress)]
    rfl
  have hcarried : Press.carried (accepted { settings } keys) = "" := by
    rw [Press.carried, List.rdropWhile_eq_nil_iff.mpr hkeeps]
    rfl
  rw [hcarried] at hentry
  exact ⟨typed, hentry⟩

end Calculator

namespace Typed

theorem unsigned_ofText_digitText (ds : List Digit) :
    (Binary64.ofText (digitText ds)).unsigned = true := by
  rw [digitText]
  exact Binary64.unsigned_ofText_digits ds

theorem linksUnsigned_chain (op : Operator) (typed : Typed) :
    Chain.LinksUnsigned ((op, (typed.chain "").first) :: (typed.chain "").links) := by
  have hfirst : (typed.chain "").first = .ofText (digitText typed.first) := by
    rw [chain, firstText, String.empty_append]
  refine List.forall_mem_cons.mpr ⟨?_, ?_⟩
  · rw [hfirst, unsigned_ofText_digitText]
  · intro link hlink
    obtain ⟨group, -, rfl⟩ := List.mem_map.mp hlink
    rw [unsigned_ofText_digitText]

end Typed

namespace Entry

theorem completed_behind (e : Expression) (entry : Entry) :
    (entry.behind e).completed = e ++ entry.completed :=
  List.append_assoc e _ _

theorem outcome_behind_of_hasRunningTotal {e : Expression} {op : Operator}
    (halternates : (e ++ [Token.operator op]).alternates = true)
    (htotal : (e ++ [Token.operator op]).hasRunningTotal = true) (entry : Entry) :
    (entry.behind (e ++ [.operator op])).outcome =
      (entry.behind [.operand e.evaluate, .operator op]).outcome := by
  rw [outcome, outcome, completed_behind, completed_behind,
    Expression.evaluate_append_of_hasRunningTotal halternates htotal]
  rfl

theorem outcome_behind_operand (x : Binary64) (op : Operator) (typed : Typed) :
    ((typed.entry "").behind [.operand x, .operator op]).outcome =
      .ofNumber (Chain.value ⟨x, (op, (typed.chain "").first) :: (typed.chain "").links⟩) := by
  rw [outcome, completed_behind, typed.completed_entry, ← Chain.evaluate_tokens]
  rfl

end Entry

namespace Calculator

/-! ## The two runs -/

theorem alternates_completed_concat (settings : Settings) (keys : List Key) (op : Operator) :
    ((pressAll { settings } keys).entry.completed ++ [Token.operator op]).alternates = true := by
  obtain ⟨typed, -, hentry⟩ := reads_accepted settings keys
  rw [hentry, typed.completed_entry]
  exact Chain.alternates_tokens_concat _ op

theorem enter_congr {c d : Calculator} {entry : Entry} (hsettings : c.settings = d.settings)
    (hpending : entry.pending ≠ "") : c.enter entry = d.enter entry := by
  simp [enter, Screen.render, Screen.content?_of_pending hpending, hsettings]

theorem refuses_of_commit {calculator shown : Calculator} {op : Operator}
    (hcommit : calculator.commit op = .ok shown) :
    calculator.refuses (.operator op) = false ∧ shown = calculator.after (.operator op) := by
  have hpress := calculator.press_eq (.operator op)
  simp only [press, hcommit] at hpress
  split at hpress
  · cases hpress
  · next hrefuses =>
      cases hpress
      exact ⟨by simpa using hrefuses, rfl⟩

theorem entry_pressAll_operator {calculator : Calculator} {op : Operator} {keys : List Key}
    (hrefuses : calculator.refuses (.operator op) = false)
    (hcuts : ∀ key ∈ keys, key.cuts = false) :
    (calculator.pressAll (.operator op :: keys)).entry =
      (pressAll { settings := calculator.settings } keys).entry.behind
        (calculator.entry.completed ++ [.operator op]) := by
  rw [pressAll_cons, tryPress_of_not_refuses hrefuses]
  refine entry_pressAll_behind (d := { settings := calculator.settings })
    (settings_after calculator _) ?_ hcuts
  rw [entry_after, Entry.after, Entry.behind, List.append_nil]

/-- After equals, keys are typed behind the settled value so far and an operator. -/
theorem entry_pressAll_equals_operator {calculator : Calculator} {op : Operator} {keys : List Key}
    (hrefuses : calculator.refuses (.operator op) = false)
    (hcuts : ∀ key ∈ keys, key.cuts = false) :
    (calculator.pressAll (.equals :: .operator op :: keys)).entry =
      (pressAll { settings := calculator.settings } keys).entry.behind
        [.operand calculator.entry.completed.evaluate.settle, .operator op] := by
  have hequals : calculator.refuses .equals = false := hrefuses
  rw [pressAll_cons, tryPress_of_not_refuses hequals,
    entry_pressAll_operator (calculator.refuses_after_equals _) hcuts, settings_after,
    entry_after_equals, Entry.completed_text_ofNumber]
  rfl

theorem text_outcome_equals_operator {calculator : Calculator} {op : Operator} {keys : List Key}
    (hrefuses : calculator.refuses (.operator op) = false)
    (halternates : (calculator.entry.completed ++ [Token.operator op]).alternates = true)
    (htotal : (calculator.entry.completed ++ [Token.operator op]).hasRunningTotal = true)
    (hcuts : ∀ key ∈ keys, key.cuts = false) :
    (calculator.pressAll (.operator op :: keys)).entry.outcome.text =
      (calculator.pressAll (.equals :: .operator op :: keys)).entry.outcome.text := by
  obtain ⟨typed, htyped⟩ := exists_typed_of_not_cuts calculator.settings hcuts
  have hsettle := Chain.settle_value calculator.entry.completed.evaluate
    (typed.linksUnsigned_chain op)
  rw [entry_pressAll_operator hrefuses hcuts, entry_pressAll_equals_operator hrefuses hcuts,
    htyped, Entry.outcome_behind_of_hasRunningTotal halternates htotal,
    Entry.outcome_behind_operand, Entry.outcome_behind_operand]
  exact (Outcome.text_ofNumber_congr hsettle).symm

/-- Calculators that are waiting for the same operand and whose outcomes have one text finish
alike, whatever is on their screens. -/
theorem finish_congr {c d : Calculator} (hsettings : c.settings = d.settings)
    (hpending : c.entry.pending = d.entry.pending)
    (htext : c.entry.outcome.text = d.entry.outcome.text) :
    (c.finish = .error .emptyOperand ∧ d.finish = .error .emptyOperand) ∨
      ∃ outcome outcome' last, c.finish = .ok (outcome, last) ∧ d.finish = .ok (outcome', last) ∧
        last.entry.expression = [] ∧ last.entry.pending = outcome.text ∧
        last.entry.pending = outcome'.text := by
  rw [finish_eq, finish_eq, hsettings, hpending]
  cases d.settings.strict && d.entry.pending.isEmpty with
  | true =>
      left
      constructor <;> rfl
  | false =>
      have hne : c.entry.outcome.text ≠ "" := Outcome.text_ofNumber_ne_empty _
      have henter : d.enter ⟨[], c.entry.outcome.text⟩ = c.enter ⟨[], c.entry.outcome.text⟩ :=
        enter_congr hsettings.symm hne
      right
      refine ⟨c.entry.outcome, d.entry.outcome, c.enter ⟨[], c.entry.outcome.text⟩,
        rfl, ?_, rfl, rfl, htext⟩
      rw [← htext, henter]
      rfl

/-- Equals pressed before an operator that shows a running total changes nothing that follows:
with the same digits and operators typed next, the final equals is refused in both runs or
accepted in both, and accepted it leaves the same calculator, with nothing committed. -/
theorem finish_equals_before_operator (settings : Settings) (before keys : List Key)
    (op : Operator) {shown : Calculator}
    (hcommit : (pressAll { settings } before).commit op = .ok shown)
    (htotal : shown.entry.expression.hasRunningTotal = true)
    (hkeys : ∀ key ∈ keys, key ≠ .equals ∧ key ≠ .clear) :
    let start := pressAll { settings } before
    let direct := (start.pressAll (.operator op :: keys)).finish
    let early := (start.pressAll (.equals :: .operator op :: keys)).finish
    (direct = .error .emptyOperand ∧ early = .error .emptyOperand) ∨
      ∃ outcome outcome' last, direct = .ok (outcome, last) ∧ early = .ok (outcome', last) ∧
        last.entry.expression = [] ∧ last.entry.pending = outcome.text ∧
        last.entry.pending = outcome'.text := by
  intro start direct early
  have hcuts : ∀ key ∈ keys, key.cuts = false :=
    fun key hkey => Key.cuts_eq_false_iff.mpr (hkeys key hkey)
  have halternates : (start.entry.completed ++ [Token.operator op]).alternates = true :=
    alternates_completed_concat settings before op
  obtain ⟨hrefuses, hshown⟩ := refuses_of_commit hcommit
  rw [hshown, entry_after] at htotal
  apply finish_congr
  · exact (settings_pressAll start _).trans (settings_pressAll start _).symm
  · rw [entry_pressAll_operator hrefuses hcuts, entry_pressAll_equals_operator hrefuses hcuts]
    rfl
  · exact text_outcome_equals_operator hrefuses halternates htotal hcuts

/-- After `1 / 0` the early equals shows `Undefined`, and `+ 5 =` still ends as it does without
it. -/
theorem finish_equals_before_operator_undefined :
    let settings : Settings := {}
    let before : List Key := [.digit ⟨'1', rfl⟩, .operator .divide, .digit ⟨'0', rfl⟩]
    let keys : List Key := [.digit ⟨'5', rfl⟩]
    let start := pressAll { settings } before
    let shown := start.after (.operator .add)
    let direct := (start.pressAll (.operator .add :: keys)).finish
    let early := (start.pressAll (.equals :: .operator .add :: keys)).finish
    start.commit .add = .ok shown ∧ shown.entry.expression.hasRunningTotal = true ∧
      (∀ key ∈ keys, key ≠ .equals ∧ key ≠ .clear) ∧
      ((direct = .error .emptyOperand ∧ early = .error .emptyOperand) ∨
        ∃ outcome outcome' last, direct = .ok (outcome, last) ∧ early = .ok (outcome', last) ∧
          last.entry.expression = [] ∧ last.entry.pending = outcome.text ∧
          last.entry.pending = outcome'.text) := by
  intro settings before keys start shown direct early
  have hcommit : start.commit .add = .ok shown := rfl
  have htotal : shown.entry.expression.hasRunningTotal = true := rfl
  have hkeys : ∀ key ∈ keys, key ≠ .equals ∧ key ≠ .clear := by decide
  exact ⟨hcommit, htotal, hkeys,
    finish_equals_before_operator settings before keys .add hcommit htotal hkeys⟩

end Calculator

end Keypad
