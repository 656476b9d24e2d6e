import Keypad.Proofs.Calculator.Replies
import Keypad.Proofs.Expression.RunningTotal
import Keypad.Proofs.Outcome
import Keypad.Proofs.Screen
import Mathlib.Data.List.DropRight

/-!
# The screen follows the entry

The screen is state of its own: an accepted key refreshes it only when there is something new to
show, a refused key does not refresh it, and clear empties it.  Two facts about one state are kept
by every key: what there is to show is shown, and the screen is empty just as the entry is.  With
them, the screen always holds the last text that was rendered since the last clear, and a screen
that is behind its entry was left so by an operator that binds tighter than one before it.
-/

namespace Keypad

namespace Entry

theorem eq_empty {entry : Entry} (hexpression : entry.expression = [])
    (hpending : entry.pending = "") : entry = {} := by
  obtain ⟨expression, pending⟩ := entry
  subst hexpression hpending
  rfl

theorem after_ne_empty (entry : Entry) {key : Key} (hclear : key ≠ .clear) :
    entry.after key ≠ {} := by
  intro hempty
  cases key with
  | digit d =>
      have hpending := congrArg pending hempty
      simp [after] at hpending
  | operator op =>
      have hexpression := congrArg expression hempty
      simp [after] at hexpression
  | equals => exact Outcome.text_ofNumber_ne_empty _ (congrArg pending hempty)
  | clear => exact hclear rfl

theorem exists_operator_of_render_after_eq_none {entry : Entry} {key : Key} {width : Nat}
    (hclear : key ≠ .clear) (hnone : Screen.render width (entry.after key) = none) :
    ∃ op, key = .operator op := by
  obtain ⟨hpending, -⟩ := (Screen.render_eq_none_iff width _).mp hnone
  cases key with
  | digit d => simp [after] at hpending
  | operator op => exact ⟨op, rfl⟩
  | equals => exact absurd hpending (Outcome.text_ofNumber_ne_empty _)
  | clear => exact absurd rfl hclear

/-- The first key that enters anything has something to show. -/
theorem ne_empty_of_render_after_eq_none {entry : Entry} {key : Key} {width : Nat}
    (hclear : key ≠ .clear) (hnone : Screen.render width (entry.after key) = none) :
    entry ≠ {} := by
  rintro rfl
  obtain ⟨op, rfl⟩ := exists_operator_of_render_after_eq_none hclear hnone
  obtain ⟨-, hnothing | htotal⟩ := (Screen.render_eq_none_iff width _).mp hnone
  · cases hnothing
  · cases htotal

end Entry

namespace Calculator

/-! ## The screen and the entry of one state -/

/-- The screen shows what there is to show of the entry, and is empty just as the entry is. -/
structure UpToDate (calculator : Calculator) : Prop where
  shows : ∀ text, Screen.render calculator.settings.width.toNat calculator.entry = some text →
    calculator.display = text
  empty_iff : calculator.display = "" ↔ calculator.entry = {}

theorem upToDate_of_empty {calculator : Calculator} (hentry : calculator.entry = {})
    (hdisplay : calculator.display = "") : calculator.UpToDate := by
  constructor
  · intro text hrender
    rw [hentry] at hrender
    cases hrender
  · exact iff_of_true hdisplay hentry

theorem display_after {calculator : Calculator} {key : Key} (hclear : key ≠ .clear) :
    (calculator.after key).display =
      (Screen.render calculator.settings.width.toNat (calculator.entry.after key)).getD
        calculator.display := by
  rw [after, if_neg hclear, enter]

/-- After equals the screen shows the text of the outcome, as far as it fits. -/
theorem display_after_equals (calculator : Calculator) :
    (calculator.after .equals).display =
      Screen.fit calculator.settings.width.toNat calculator.entry.outcome.text := by
  have hpending : (calculator.entry.after .equals).pending ≠ "" :=
    Outcome.text_ofNumber_ne_empty _
  rw [display_after (by decide), Screen.render_of_pending _ hpending, Option.getD_some]
  rfl

theorem UpToDate.after {calculator : Calculator} (hupToDate : calculator.UpToDate) (key : Key) :
    (calculator.after key).UpToDate := by
  by_cases hclear : key = .clear
  · rw [hclear]
    exact upToDate_of_empty rfl rfl
  constructor
  · intro text hrender
    rw [settings_after, entry_after] at hrender
    rw [display_after hclear, hrender, Option.getD_some]
  · have hentry : (calculator.after key).entry ≠ {} := by
      rw [entry_after]
      exact calculator.entry.after_ne_empty hclear
    have hdisplay : (calculator.after key).display ≠ "" := by
      rw [display_after hclear]
      cases hrender : Screen.render calculator.settings.width.toNat
          (calculator.entry.after key) with
      | some text => exact Screen.ne_empty_of_render_eq_some hrender
      | none =>
          have hbefore := Entry.ne_empty_of_render_after_eq_none hclear hrender
          exact fun hempty => hbefore (hupToDate.empty_iff.mp hempty)
    exact iff_of_false hdisplay hentry

/-- After any key but clear, refused or not, the screen shows what there is to show, or else what
it showed before. -/
theorem UpToDate.display_tryPress {calculator : Calculator} (hupToDate : calculator.UpToDate)
    {key : Key} (hclear : key ≠ .clear) :
    (calculator.tryPress key).display =
      (Screen.render calculator.settings.width.toNat (calculator.tryPress key).entry).getD
        calculator.display := by
  by_cases hrefuses : calculator.refuses key = true
  · rw [tryPress_of_refuses hrefuses]
    cases hrender : Screen.render calculator.settings.width.toNat calculator.entry with
    | some text => exact hupToDate.shows text hrender
    | none => rfl
  · rw [tryPress_of_not_refuses (eq_false_of_ne_true hrefuses), entry_after,
      display_after hclear]

/-! ## The screen and the run -/

/-- The texts that a run has rendered since its last clear. -/
def renderedSinceClear (width : Nat) (replies : List Reply) : List String :=
  (replies.rtakeWhile fun reply => reply.key ≠ .clear).filterMap fun reply =>
    Screen.render width reply.entry

theorem renderedSinceClear_concat_of_clear (width : Nat) (replies : List Reply) {reply : Reply}
    (hclear : reply.key = .clear) : renderedSinceClear width (replies ++ [reply]) = [] := by
  rw [renderedSinceClear, List.rtakeWhile_concat_neg _ _ _ (by simp [hclear]), List.filterMap_nil]

theorem renderedSinceClear_concat_of_ne_clear (width : Nat) (replies : List Reply) {reply : Reply}
    (hclear : reply.key ≠ .clear) :
    renderedSinceClear width (replies ++ [reply]) =
      renderedSinceClear width replies ++ (Screen.render width reply.entry).toList := by
  rw [renderedSinceClear, List.rtakeWhile_concat_pos _ _ _ (by simp [hclear]),
    List.filterMap_append, renderedSinceClear]
  cases hrender : Screen.render width reply.entry <;> simp [hrender]

theorem upToDate_pressAll (settings : Settings) (keys : List Key) :
    (pressAll { settings } keys).UpToDate :=
  pressAll_invariant (fun _ key _ hstate => hstate.after key) (upToDate_of_empty rfl rfl)

theorem display_eq_getLast?_renderedSinceClear (settings : Settings) (keys : List Key) :
    (pressAll { settings } keys).display =
      (renderedSinceClear settings.width.toNat (replies { settings } keys)).getLast?.getD "" := by
  induction keys using List.reverseRecOn with
  | nil => rfl
  | append_singleton keys key ih =>
      rw [replies_concat, pressAll_concat]
      by_cases hclear : key = .clear
      · rw [hclear, renderedSinceClear_concat_of_clear _ _ rfl,
          tryPress_of_not_refuses (refuses_clear _)]
        rfl
      · rw [renderedSinceClear_concat_of_ne_clear _ _ hclear,
          (upToDate_pressAll settings keys).display_tryPress hclear, settings_pressAll, ih,
          List.getLast?_append]
        cases hrender : Screen.render settings.width.toNat
          ((pressAll { settings } keys).tryPress key).entry <;> simp [reply, hrender]

/-- A screen that is behind its entry was left so by the last key that was accepted, an
operator. -/
theorem exists_operator_of_render_eq_none (settings : Settings) {keys : List Key}
    (hnone : Screen.render settings.width.toNat (pressAll { settings } keys).entry = none)
    (hne : (pressAll { settings } keys).entry ≠ {}) :
    ∃ before op later, keys = before ++ .operator op :: later ∧
      (pressAll { settings } before).press (.operator op) =
        .ok (none, pressAll { settings } keys) ∧
      (∀ key ∈ later, (pressAll { settings } keys).refuses key = true) ∧
      (pressAll { settings } keys).display = (pressAll { settings } before).display := by
  induction keys using List.reverseRecOn with
  | nil => exact absurd rfl hne
  | append_singleton keys key ih =>
      rw [pressAll_concat] at hnone hne ⊢
      by_cases hrefuses : (pressAll { settings } keys).refuses key = true
      · rw [tryPress_of_refuses hrefuses] at hnone hne ⊢
        obtain ⟨before, op, later, hkeys, hpress, hlater, hdisplay⟩ := ih hnone hne
        refine ⟨before, op, later ++ [key], ?_, hpress, ?_, hdisplay⟩
        · rw [hkeys, List.append_assoc, List.cons_append]
        · exact List.forall_mem_append.mpr ⟨hlater, List.forall_mem_singleton.mpr hrefuses⟩
      · have haccepts := eq_false_of_ne_true hrefuses
        rw [tryPress_of_not_refuses haccepts] at hnone hne ⊢
        have hclear : key ≠ .clear := by
          rintro rfl
          exact hne rfl
        rw [entry_after] at hnone
        obtain ⟨op, rfl⟩ := Entry.exists_operator_of_render_after_eq_none hclear hnone
        refine ⟨keys, op, [], rfl, ?_, by simp, ?_⟩
        · rw [press_eq, haccepts, if_neg Bool.false_ne_true]
          rfl
        · rw [display_after hclear, settings_pressAll, hnone, Option.getD_none]

/-- In every state of every run the screen shows the last text that was rendered since the last
clear.  So it shows what there is to show, and is empty just as the entry is.  Where there is
nothing new to show of what is entered, the operators stop ascending somewhere and the screen is
as it was before the last operator that was accepted. -/
theorem display_never_stale (settings : Settings) (keys : List Key) :
    let calculator := pressAll { settings } keys
    calculator.display =
        (renderedSinceClear settings.width.toNat (replies { settings } keys)).getLast?.getD "" ∧
      (calculator.display = "" ↔ calculator.entry = {}) ∧
      match Screen.render settings.width.toNat calculator.entry with
      | some text => calculator.display = text
      | none => calculator.entry = {} ∨
          calculator.entry.pending = "" ∧
          (∃ earlier left right later,
            calculator.entry.expression.operators = earlier ++ left :: right :: later ∧
              right.rank < left.rank) ∧
          calculator.display ≠ "" ∧
          ∃ before op refused, keys = before ++ .operator op :: refused ∧
            (pressAll { settings } before).press (.operator op) = .ok (none, calculator) ∧
            (∀ reply ∈ calculator.replies refused, reply.isAccepted = false) ∧
            calculator.display = (pressAll { settings } before).display := by
  intro calculator
  have hupToDate : calculator.UpToDate := upToDate_pressAll settings keys
  have hsettings : calculator.settings = settings := settings_pressAll _ keys
  refine ⟨display_eq_getLast?_renderedSinceClear settings keys, hupToDate.empty_iff, ?_⟩
  split
  · next text hrender =>
      apply hupToDate.shows
      rw [hsettings]
      exact hrender
  · next hnone =>
      by_cases hempty : calculator.entry = {}
      · exact Or.inl hempty
      right
      obtain ⟨hpending, hexpression⟩ := (Screen.render_eq_none_iff _ _).mp hnone
      obtain ⟨before, op, later, hkeys, hpress, hlater, hdisplay⟩ :=
        exists_operator_of_render_eq_none settings hnone hempty
      refine ⟨hpending, ?_, fun hblank => hempty (hupToDate.empty_iff.mp hblank), before, op, later,
        hkeys, hpress, isAccepted_replies_of_refuses hlater, hdisplay⟩
      rcases hexpression with hnothing | htotal
      · exact absurd (Entry.eq_empty hnothing hpending) hempty
      · exact exists_rank_lt_of_not_ranksAscend htotal

/-- In `2 + 3 *` there is no running total to show, so the `3` stays. -/
example :
    (pressAll { settings := {} } [.digit ⟨'2', rfl⟩, .operator .add, .digit ⟨'3', rfl⟩,
      .operator .multiply]).display = "3" := by decide +kernel

end Calculator

end Keypad
