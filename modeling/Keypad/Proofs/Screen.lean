import Keypad.Proofs.NumberText
import Keypad.Screen

/-!
# When there is something to show

There is nothing new to show of an entry only when no operand is being typed and what is committed
is empty or has no running total.  Whatever is shown is never the empty text, on a screen of any
width.
-/

namespace Keypad.Screen

theorem fit_ne_empty (width : Nat) {text : String} (hne : text ≠ "") : fit width text ≠ "" := by
  by_cases hwidth : width < text.length
  · rw [fit_of_lt hwidth]
    decide
  · rw [fit_of_le (Nat.le_of_not_lt hwidth)]
    exact hne

theorem content?_of_pending {entry : Entry} (hpending : entry.pending ≠ "") :
    content? entry = some entry.pending := by
  simp [content?, hpending]

theorem content?_of_not_pending {entry : Entry} (hpending : entry.pending = "") :
    content? entry = if entry.expression ≠ [] ∧ entry.expression.hasRunningTotal = true
      then some entry.expression.runningTotal.toText else none := by
  by_cases hexpression : entry.expression = []
  · simp [content?, hpending, hexpression]
  · simp [content?, hpending, hexpression]

theorem content?_eq_none_iff (entry : Entry) :
    content? entry = none ↔ entry.pending = "" ∧
      (entry.expression = [] ∨ entry.expression.hasRunningTotal = false) := by
  by_cases hpending : entry.pending = ""
  · rw [content?_of_not_pending hpending]
    by_cases hexpression : entry.expression = []
    · simp [hpending, hexpression]
    · simp [hpending, hexpression]
  · simp [content?_of_pending hpending, hpending]

theorem ne_empty_of_content?_eq_some {entry : Entry} {text : String}
    (hcontent : content? entry = some text) : text ≠ "" := by
  by_cases hpending : entry.pending = ""
  · rw [content?_of_not_pending hpending, Option.ite_none_right_eq_some] at hcontent
    obtain ⟨-, htext⟩ := hcontent
    rw [← Option.some.inj htext]
    exact Binary64.toText_ne_empty _
  · rw [content?_of_pending hpending] at hcontent
    rw [← Option.some.inj hcontent]
    exact hpending

theorem render_eq_none_iff (width : Nat) (entry : Entry) :
    render width entry = none ↔ entry.pending = "" ∧
      (entry.expression = [] ∨ entry.expression.hasRunningTotal = false) := by
  rw [render, Option.map_eq_none_iff, content?_eq_none_iff]

theorem render_of_pending (width : Nat) {entry : Entry} (hpending : entry.pending ≠ "") :
    render width entry = some (fit width entry.pending) := by
  rw [render, content?_of_pending hpending, Option.map_some]

theorem ne_empty_of_render_eq_some {width : Nat} {entry : Entry} {text : String}
    (hrender : render width entry = some text) : text ≠ "" := by
  obtain ⟨content, hcontent, rfl⟩ := Option.map_eq_some_iff.mp hrender
  exact fit_ne_empty width (ne_empty_of_content?_eq_some hcontent)

end Keypad.Screen
