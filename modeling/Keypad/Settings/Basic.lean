import Keypad.Outcome
import Keypad.Screen

/-!
# Settings of a calculator

Whether empty operands are refused, and how wide the screen is.  Valid settings have a screen
on which both of its own markers fit.
-/

namespace Keypad

structure Settings where
  /-- Refuse an operator or an evaluation while no operand has been typed. -/
  strict : Bool := false
  /-- How many characters fit on the screen. -/
  width : UInt64 := 9
  deriving DecidableEq, Repr

/-- The reasons for refusing settings. -/
inductive SettingsError where
  /-- The text is no settings file. -/
  | malformed
  /-- The screen is too narrow for its markers. -/
  | narrowScreen (width : UInt64)
  deriving DecidableEq, Repr

namespace Settings

/-- The narrowest screen on which both markers fit. -/
def minimumWidth : Nat := max Screen.errorText.length undefinedText.length

/-- The settings themselves, if their screen is wide enough. -/
def validate (settings : Settings) : Except SettingsError Settings :=
  if settings.width.toNat < minimumWidth then .error (.narrowScreen settings.width)
  else .ok settings

theorem validate_eq_ok_iff {given settings : Settings} :
    given.validate = .ok settings ↔ given = settings ∧ minimumWidth ≤ settings.width.toNat := by
  rw [validate]
  split
  · next hnarrow =>
      constructor
      · intro hvalid
        cases hvalid
      · rintro ⟨rfl, hwide⟩
        exact absurd hnarrow (Nat.not_lt.2 hwide)
  · next hwide =>
      constructor
      · intro hvalid
        cases hvalid
        exact ⟨rfl, Nat.le_of_not_lt hwide⟩
      · rintro ⟨rfl, -⟩
        rfl

theorem minimumWidth_eq : minimumWidth = 9 := by decide

theorem validate_of_le {settings : Settings} (hwide : 9 ≤ settings.width.toNat) :
    settings.validate = .ok settings := by
  rw [validate_eq_ok_iff, minimumWidth_eq]
  exact ⟨rfl, hwide⟩

theorem validate_of_lt {settings : Settings} (hnarrow : settings.width.toNat < 9) :
    settings.validate = .error (.narrowScreen settings.width) := by
  rw [validate, minimumWidth_eq, if_pos hnarrow]

end Settings

namespace SettingsError

def message : SettingsError → String
  | malformed => "not a settings file"
  | narrowScreen width =>
    "display_width must be at least " ++ Settings.minimumWidth.repr ++ ", got " ++
      width.toNat.repr

end SettingsError

end Keypad
