import Keypad.Proofs.Calculator.Display

/-!
# The width of the screen

The width decides only which texts are replaced by the marker.  A calculator with a narrower
screen therefore follows one with a wider screen key by key, and what it shows can be read off
the wider screen, also where the wider screen still shows an earlier text.  On a screen that is
wide enough for the markers, everything that is shown fits.
-/

namespace Keypad

namespace Screen

/-- What a narrower screen shows where another one shows a text. -/
def narrowed (width : Nat) (shown : String) : String :=
  if shown = errorText ∨ shown.length ≤ width then shown else errorText

theorem narrowed_eq_fit (width : Nat) {text : String} (hne : text ≠ errorText) :
    narrowed width text = fit width text := by
  by_cases hfits : text.length ≤ width
  · rw [narrowed, if_pos (Or.inr hfits), fit_of_le hfits]
  · rw [narrowed, if_neg (not_or_intro hne hfits), fit_of_lt (Nat.lt_of_not_le hfits)]

theorem fit_errorText (width : Nat) : fit width errorText = errorText := by
  rw [fit, ite_self]

theorem narrowed_errorText (width : Nat) : narrowed width errorText = errorText := by
  rw [narrowed, if_pos (Or.inl rfl)]

/-- Fitting a text to a wider screen first makes no difference. -/
theorem narrowed_fit {narrow wide : Nat} (hle : narrow ≤ wide) (text : String) :
    narrowed narrow (fit wide text) = fit narrow text := by
  by_cases hfits : text.length ≤ wide
  · rw [fit_of_le hfits]
    by_cases herror : text = errorText
    · rw [herror, narrowed_errorText, fit_errorText]
    · exact narrowed_eq_fit narrow herror
  · have hwide : wide < text.length := Nat.lt_of_not_le hfits
    rw [fit_of_lt hwide, narrowed_errorText, fit_of_lt (hle.trans_lt hwide)]

theorem length_fit_le {width : Nat} (hwidth : errorText.length ≤ width) (text : String) :
    (fit width text).length ≤ width := by
  by_cases hfits : text.length ≤ width
  · rwa [fit_of_le hfits]
  · rwa [fit_of_lt (Nat.lt_of_not_le hfits)]

end Screen

namespace Calculator

/-! ## Two screens -/

/-- The calculator with a screen of a given width in place of its own wider one. -/
def narrowed (calculator : Calculator) (width : UInt64) : Calculator where
  settings := { calculator.settings with width }
  entry := calculator.entry
  display := Screen.narrowed width.toNat calculator.display

theorem refuses_narrowed (calculator : Calculator) (width : UInt64) (key : Key) :
    (calculator.narrowed width).refuses key = calculator.refuses key := rfl

theorem enter_narrowed {calculator : Calculator} {width : UInt64}
    (hle : width ≤ calculator.settings.width) (entry : Entry) :
    (calculator.narrowed width).enter entry = (calculator.enter entry).narrowed width := by
  have hwidth : width.toNat ≤ calculator.settings.width.toNat := hle
  simp only [enter, narrowed, Screen.render]
  cases Screen.content? entry with
  | none => rfl
  | some text =>
      simp only [Option.map_some, Option.getD_some, Screen.narrowed_fit hwidth]

theorem after_narrowed {calculator : Calculator} {width : UInt64}
    (hle : width ≤ calculator.settings.width) (key : Key) :
    (calculator.narrowed width).after key = (calculator.after key).narrowed width := by
  by_cases hclear : key = .clear
  · rw [after, after, if_pos hclear, if_pos hclear]
    rfl
  · rw [after, after, if_neg hclear, if_neg hclear]
    exact enter_narrowed hle _

theorem tryPress_narrowed {calculator : Calculator} {width : UInt64}
    (hle : width ≤ calculator.settings.width) (key : Key) :
    (calculator.narrowed width).tryPress key = (calculator.tryPress key).narrowed width := by
  rw [tryPress_eq, tryPress_eq, refuses_narrowed]
  split
  · rfl
  · exact after_narrowed hle key

theorem reply_narrowed {calculator : Calculator} {width : UInt64}
    (hle : width ≤ calculator.settings.width) (key : Key) :
    (calculator.narrowed width).reply key =
      { calculator.reply key with
        display := Screen.narrowed width.toNat (calculator.reply key).display } := by
  have hresult : ((calculator.narrowed width).press key).map Prod.fst =
      (calculator.press key).map Prod.fst := by
    rw [press_eq, press_eq, refuses_narrowed]
    split <;> rfl
  rw [reply, hresult, tryPress_narrowed hle]
  rfl

theorem replies_narrowed {calculator : Calculator} {width : UInt64}
    (hle : width ≤ calculator.settings.width) (keys : List Key) :
    (calculator.narrowed width).replies keys = (calculator.replies keys).map fun reply =>
      { reply with display := Screen.narrowed width.toNat reply.display } := by
  induction keys generalizing calculator with
  | nil => rfl
  | cons key keys ih =>
      have hlater : width ≤ (calculator.tryPress key).settings.width := by
        rwa [settings_tryPress]
      rw [replies_cons, replies_cons, List.map_cons, reply_narrowed hle, tryPress_narrowed hle,
        ih hlater]

/-- Of two screens that are driven by the same keys, the narrower one shows what the wider one
shows wherever that fits, and the marker wherever it does not.  Nothing else differs: the same
keys are refused, and outcomes and entries are the same. -/
theorem replies_of_narrower (strict : Bool) {narrow wide : UInt64} (hle : narrow ≤ wide)
    (keys : List Key) :
    replies { settings := { strict, width := narrow } } keys =
      (replies { settings := { strict, width := wide } } keys).map fun reply =>
        { reply with display :=
            if reply.display = Screen.errorText ∨ reply.display.length ≤ narrow.toNat
            then reply.display else Screen.errorText } :=
  @replies_narrowed { settings := { strict, width := wide } } narrow hle keys

/-- In `1 + 1234567890 *` the last key has nothing new to show, and a screen of nine characters
keeps the marker where one of twelve keeps the number. -/
theorem replies_of_narrower_retained :
    let keys : List Key := [.digit ⟨'1', rfl⟩, .operator .add, .digit ⟨'1', rfl⟩,
      .digit ⟨'2', rfl⟩, .digit ⟨'3', rfl⟩, .digit ⟨'4', rfl⟩, .digit ⟨'5', rfl⟩,
      .digit ⟨'6', rfl⟩, .digit ⟨'7', rfl⟩, .digit ⟨'8', rfl⟩, .digit ⟨'9', rfl⟩,
      .digit ⟨'0', rfl⟩, .operator .multiply, .equals]
    (9 : UInt64) ≤ 12 ∧
      replies { settings := { strict := true, width := 9 } } keys =
        (replies { settings := { strict := true, width := 12 } } keys).map fun reply =>
          { reply with display :=
              if reply.display = Screen.errorText ∨ reply.display.length ≤ (9 : UInt64).toNat
              then reply.display else Screen.errorText } := by
  intro keys
  have hle : (9 : UInt64) ≤ 12 := by decide
  exact ⟨hle, replies_of_narrower true hle keys⟩

/-! ## A screen that is wide enough for the markers -/

theorem length_display_after {calculator : Calculator}
    (hwidth : Screen.errorText.length ≤ calculator.settings.width.toNat)
    (hfits : calculator.display.length ≤ calculator.settings.width.toNat) (key : Key) :
    (calculator.after key).display.length ≤ calculator.settings.width.toNat := by
  by_cases hclear : key = .clear
  · rw [hclear]
    exact Nat.zero_le _
  · rw [display_after hclear, Screen.render]
    cases Screen.content? (calculator.entry.after key) with
    | none => exact hfits
    | some text => exact Screen.length_fit_le hwidth text

theorem length_display_pressAll {settings : Settings}
    (hwidth : Screen.errorText.length ≤ settings.width.toNat) (keys : List Key) :
    (pressAll { settings } keys).display.length ≤ settings.width.toNat := by
  have hinvariant : (pressAll { settings } keys).settings = settings ∧
      (pressAll { settings } keys).display.length ≤ settings.width.toNat := by
    apply pressAll_invariant (P := fun state =>
      state.settings = settings ∧ state.display.length ≤ settings.width.toNat)
    · rintro state key - ⟨rfl, hfits⟩
      exact ⟨settings_after state key, length_display_after hwidth hfits key⟩
    · exact ⟨rfl, Nat.zero_le _⟩
  exact hinvariant.2

/-- With valid settings the screen is never wider than its width, whatever is typed; and an
outcome that is undefined is shown as such, never as a text that does not fit. -/
theorem display_fits {given settings : Settings} (hvalid : given.validate = .ok settings)
    (keys : List Key) :
    let calculator := pressAll { settings } keys
    calculator.display.length ≤ settings.width.toNat ∧
      ∀ outcome last, calculator.press .equals = .ok (some outcome, last) →
        outcome.number = .nan ∨ outcome.number = .infinity false →
          last.display = "Undefined" := by
  intro calculator
  obtain ⟨-, hminimum⟩ := Settings.validate_eq_ok_iff.mp hvalid
  have herror : Screen.errorText.length ≤ settings.width.toNat :=
    (Nat.le_max_left _ _).trans hminimum
  have hundefined : undefinedText.length ≤ settings.width.toNat :=
    (Nat.le_max_right _ _).trans hminimum
  refine ⟨length_display_pressAll herror keys, ?_⟩
  intro outcome last hpress hnumber
  rw [press_eq] at hpress
  split at hpress
  · cases hpress
  · cases hpress
    rw [Entry.outcome, Outcome.number_ofNumber] at hnumber
    have htext : calculator.entry.outcome.text = undefinedText := by
      rw [Entry.outcome, Outcome.text_ofNumber, if_pos hnumber]
    rw [display_after_equals, settings_pressAll, htext, Screen.fit_of_le hundefined]
    rfl

/-- In `5 / 0 =` on the narrowest valid screen. -/
theorem display_fits_quotient_by_zero :
    let settings : Settings := { strict := true, width := 9 }
    let calculator := pressAll { settings }
      [.digit ⟨'5', rfl⟩, .operator .divide, .digit ⟨'0', rfl⟩]
    let outcome : Outcome := .undefined (.infinity false)
    let last := calculator.after .equals
    settings.validate = .ok settings ∧ calculator.press .equals = .ok (some outcome, last) ∧
      (outcome.number = .nan ∨ outcome.number = .infinity false) ∧
      calculator.display.length ≤ settings.width.toNat ∧ last.display = "Undefined" := by
  intro settings calculator outcome last
  have hvalid : settings.validate = .ok settings := rfl
  have hrefuses : calculator.refuses .equals = false := by decide +kernel
  have houtcome : calculator.entry.outcome = outcome := by decide +kernel
  have hpress : calculator.press .equals = .ok (some outcome, last) := by
    rw [press_eq, hrefuses, answer, houtcome]
    rfl
  have hnumber : outcome.number = .nan ∨ outcome.number = .infinity false := Or.inr rfl
  obtain ⟨hfits, hshown⟩ := display_fits hvalid
    [.digit ⟨'5', rfl⟩, .operator .divide, .digit ⟨'0', rfl⟩]
  exact ⟨hvalid, hpress, hnumber, hfits, hshown outcome last hpress hnumber⟩

/-- Three characters are too few for the marker itself. -/
example :
    (pressAll { settings := { width := 3 } } [.digit ⟨'1', rfl⟩, .digit ⟨'2', rfl⟩,
      .digit ⟨'3', rfl⟩, .digit ⟨'4', rfl⟩]).display = "Error" := by decide +kernel

end Calculator

end Keypad
