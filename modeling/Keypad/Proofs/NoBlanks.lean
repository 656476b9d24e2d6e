import Keypad.Calculator
import Keypad.Json.Entry
import Keypad.Proofs.Calculator.Press
import Keypad.Proofs.Key

/-!
# No blanks are shown or written

Numbers are written with the characters of numerals or as words, and a key types no blank.  So no
state of a run has a blank in its operand or on its screen, and none is in its JSON text either.
In particular what is printed of a state never breaks a line.
-/

namespace Keypad

namespace Text

/-- Whether none of some characters is blank. -/
def NoBlanks (cs : List Char) : Prop := ∀ c ∈ cs, isBlank c = false

instance (cs : List Char) : Decidable (NoBlanks cs) :=
  List.decidableBAll (fun c => isBlank c = false) cs

theorem noBlanks_nil : NoBlanks [] := by decide

theorem noBlanks_cons {c : Char} {cs : List Char} :
    NoBlanks (c :: cs) ↔ isBlank c = false ∧ NoBlanks cs :=
  List.forall_mem_cons

theorem NoBlanks.append {cs rest : List Char} (hcs : NoBlanks cs) (hrest : NoBlanks rest) :
    NoBlanks (cs ++ rest) :=
  List.forall_mem_append.mpr ⟨hcs, hrest⟩

theorem NoBlanks.feed_not_mem {cs : List Char} (hcs : NoBlanks cs) : '\n' ∉ cs := by
  intro hmem
  exact absurd (hcs '\n' hmem) (by decide)

theorem noBlanks_of_numeral {cs : List Char} {n : Numeral}
    (hsome : Numeral.ofChars? cs = some n) : NoBlanks cs := by
  intro c hc
  exact Numeral.not_isBlank_of_isNumeralChar (Numeral.isNumeralChar_of_ofChars? hsome c hc)

end Text

open Text

/-! ## Numbers -/

namespace Decimal

theorem noBlanks_positional (d : Decimal) : NoBlanks d.positional := by
  obtain ⟨d', hread, -⟩ := ofChars?_positional false d
  exact noBlanks_of_numeral hread

theorem noBlanks_scientific (d : Decimal) : NoBlanks d.scientific :=
  noBlanks_of_numeral (ofChars?_scientific false d)

end Decimal

theorem Binary64.noBlanks_toChars (x : Binary64) : NoBlanks x.toChars := by
  cases x with
  | nan =>
      unfold toChars
      decide
  | infinity negative =>
      cases negative with
      | true =>
          unfold toChars
          decide
      | false =>
          unfold toChars
          decide
  | finite negative magnitude =>
      have hsign : NoBlanks (Numeral.signText negative) := by
        cases negative <;> decide
      have htext : NoBlanks (magnitudeText magnitude) := by
        rw [magnitudeText]
        split
        · exact Decimal.noBlanks_positional _
        · exact Decimal.noBlanks_scientific _
      rw [toChars_finite]
      split
      · decide
      · exact hsign.append htext

theorem Binary64.noBlanks_toText (x : Binary64) : NoBlanks x.toText.toList := by
  rw [toText, String.toList_ofList]
  exact x.noBlanks_toChars

theorem Outcome.noBlanks_text (outcome : Outcome) : NoBlanks outcome.text.toList := by
  cases outcome with
  | value number => exact number.noBlanks_toText
  | undefined number =>
      rw [text]
      decide

/-! ## Entries and screens -/

theorem Entry.noBlanks_pending_after {entry : Entry} (hpending : NoBlanks entry.pending.toList)
    (key : Key) : NoBlanks (entry.after key).pending.toList := by
  cases key with
  | digit d =>
      rw [after, pending_typeDigit, String.toList_push]
      exact hpending.append (noBlanks_cons.mpr ⟨(Key.digit d).not_isBlank_char, noBlanks_nil⟩)
  | operator op => exact noBlanks_nil
  | equals => exact entry.outcome.noBlanks_text
  | clear => exact noBlanks_nil

namespace Screen

theorem noBlanks_fit (width : Nat) {text : String} (htext : NoBlanks text.toList) :
    NoBlanks (fit width text).toList := by
  rw [fit]
  split
  · decide
  · exact htext

theorem noBlanks_of_render {width : Nat} {entry : Entry} {text : String}
    (hpending : NoBlanks entry.pending.toList) (hrender : render width entry = some text) :
    NoBlanks text.toList := by
  obtain ⟨content, hcontent, rfl⟩ := Option.map_eq_some_iff.mp hrender
  apply noBlanks_fit
  rw [content?] at hcontent
  split at hcontent
  · cases hcontent
    exact hpending
  · split at hcontent
    · cases hcontent
    · split at hcontent
      · cases hcontent
        exact Binary64.noBlanks_toText _
      · cases hcontent

end Screen

namespace Calculator

/-- Whether neither the operand nor the screen holds a blank. -/
def NoBlanks (calculator : Calculator) : Prop :=
  Text.NoBlanks calculator.entry.pending.toList ∧ Text.NoBlanks calculator.display.toList

theorem NoBlanks.after {calculator : Calculator} (hcalculator : calculator.NoBlanks) (key : Key) :
    (calculator.after key).NoBlanks := by
  have hpending := Entry.noBlanks_pending_after hcalculator.1 key
  constructor
  · rwa [entry_after]
  · rw [Calculator.after]
    split
    · exact noBlanks_nil
    · rw [enter]
      cases hrender : Screen.render calculator.settings.width.toNat
          (calculator.entry.after key) with
      | none => exact hcalculator.2
      | some text => exact Screen.noBlanks_of_render hpending hrender

theorem noBlanks_pressAll (settings : Settings) (keys : List Key) :
    (pressAll { settings } keys).NoBlanks :=
  pressAll_invariant (fun _ key _ hstate => hstate.after key) ⟨noBlanks_nil, noBlanks_nil⟩

end Calculator

/-! ## JSON -/

namespace Json

theorem noBlanks_writeMagnitude (rank : Nat) : NoBlanks (writeMagnitude rank) := by
  have hzero : NoBlanks ['.', '0'] := by decide
  rw [writeMagnitude]
  split
  · exact noBlanks_cons.mpr ⟨by decide, hzero⟩
  · rw [writeDecimal]
    split
    · split
      · exact (Decimal.noBlanks_positional _).append hzero
      · exact Decimal.noBlanks_positional _
    · exact Decimal.noBlanks_scientific _

theorem noBlanks_writeNumber (x : Binary64) : NoBlanks (writeNumber x) := by
  unfold writeNumber
  split
  · split
    · exact noBlanks_cons.mpr ⟨by decide, noBlanks_writeMagnitude _⟩
    · exact noBlanks_writeMagnitude _
  · decide

theorem noBlanks_writeToken (token : Token) : NoBlanks (writeToken token) := by
  cases token with
  | operand value => exact noBlanks_writeNumber value
  | operator op => cases op <;> decide

theorem noBlanks_writeTokens (e : Expression) : NoBlanks (writeTokens e) := by
  induction e using writeTokens.induct with
  | case1 => exact noBlanks_cons.mpr ⟨by decide, noBlanks_nil⟩
  | case2 token =>
      exact (noBlanks_writeToken token).append (noBlanks_cons.mpr ⟨by decide, noBlanks_nil⟩)
  | case3 token next rest ih =>
      exact (noBlanks_writeToken token).append (noBlanks_cons.mpr ⟨by decide, ih⟩)

theorem noBlanks_escape {c : Char} (hblank : Text.isBlank c = false) : NoBlanks (escape c) := by
  have hdigit : ∀ value < 16, Text.isBlank (hexDigit value) = false := by decide
  unfold escape
  split
  · decide
  split
  · decide
  split
  · decide
  split
  · decide
  split
  · decide
  split
  · decide
  split
  · decide
  split
  · next hcontrol =>
      have hhigh := hdigit (c.toNat / 16) (by omega)
      have hlow := hdigit (c.toNat % 16) (by omega)
      simp only [noBlanks_cons]
      exact ⟨by decide, by decide, by decide, by decide, hhigh, hlow, noBlanks_nil⟩
  · exact noBlanks_cons.mpr ⟨hblank, noBlanks_nil⟩

theorem noBlanks_quote {cs : List Char} (hcs : NoBlanks cs) : NoBlanks (quote cs) := by
  have hescaped : NoBlanks (cs.flatMap escape) := by
    intro d hd
    obtain ⟨c, hc, hd⟩ := List.mem_flatMap.mp hd
    exact noBlanks_escape (hcs c hc) d hd
  exact noBlanks_cons.mpr ⟨by decide, hescaped.append (by decide)⟩

theorem noBlanks_writeEntry {entry : Entry} (hpending : NoBlanks entry.pending.toList) :
    NoBlanks (writeEntry entry) := by
  have hlabel : NoBlanks "\x7b\"expression\":".toList := by decide
  have hlabel' : NoBlanks ",\"current_number\":".toList := by decide
  have hexpression : NoBlanks (writeExpression entry.expression) :=
    noBlanks_cons.mpr ⟨by decide, noBlanks_writeTokens _⟩
  have hquoted := noBlanks_quote hpending
  have hend : NoBlanks ['}'] := by decide
  exact (((hlabel.append hexpression).append hlabel').append hquoted).append hend

end Json

theorem Entry.noBlanks_toJson {entry : Entry} (hpending : NoBlanks entry.pending.toList) :
    NoBlanks entry.toJson.toList := by
  rw [toJson, String.toList_ofList]
  exact Json.noBlanks_writeEntry hpending

end Keypad
