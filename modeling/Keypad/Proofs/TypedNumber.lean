import Keypad.Digit
import Keypad.NumberText
import Keypad.Proofs.Binary64.Sign
import Keypad.Proofs.Decimal.Reading

/-!
# Typed numbers carry no minus sign

A text is read as a number with a minus sign only if it holds one, and the digit keys type none.
-/

namespace Keypad

theorem Text.mem_of_mem_trim {cs : List Char} {c : Char} (hc : c ∈ trim cs) : c ∈ cs := by
  have hend : c ∈ (trimStart cs).reverse.dropWhile isBlank := by
    simpa [trim, trimEnd] using hc
  have hstart : c ∈ trimStart cs := by
    simpa using (List.dropWhile_sublist _).subset hend
  exact (List.dropWhile_sublist _).subset hstart

namespace Numeral

theorem mem_of_splitSign {cs : List Char} (hnegative : (splitSign cs).1 = true) : '-' ∈ cs := by
  unfold splitSign at hnegative
  split at hnegative
  · exact List.mem_cons_self
  · cases hnegative
  · cases hnegative

theorem mem_of_ofChars?_negative {cs : List Char} {n : Numeral} (hsome : ofChars? cs = some n)
    (hnegative : n.negative = true) : '-' ∈ cs := by
  rw [ofChars?_eq] at hsome
  obtain ⟨d, -, rfl⟩ := Option.map_eq_some_iff.mp hsome
  exact mem_of_splitSign hnegative

end Numeral

namespace Binary64

/-- A text without a minus sign is read as a number without one. -/
theorem unsigned_ofChars {cs : List Char} (hminus : '-' ∉ cs) :
    (ofChars cs).unsigned = true := by
  have htrimmed : '-' ∉ Text.trim cs := fun hmem => hminus (Text.mem_of_mem_trim hmem)
  rw [ofChars]
  split
  · rfl
  · split
    · rfl
    · split
      · next hnegative =>
          rw [hnegative] at htrimmed
          exact absurd (by decide) htrimmed
      · split
        · next n hnumeral =>
            have hsign : n.negative = false := by
              cases hn : n.negative with
              | false => rfl
              | true => exact absurd (Numeral.mem_of_ofChars?_negative hnumeral hn) htrimmed
            rw [Numeral.toBinary64, Decimal.toBinary64, hsign]
            exact unsigned_ofRank _
        · rfl

end Binary64

theorem Digit.char_ne_minus (d : Digit) : d.char ≠ '-' := by
  intro hminus
  have hvalid := d.valid
  rw [hminus] at hvalid
  exact absurd hvalid (by decide)

/-- The number that digit keys type carries no minus sign. -/
theorem Binary64.unsigned_ofText_digits (ds : List Digit) :
    (ofText (.ofList (ds.map Digit.char))).unsigned = true := by
  apply unsigned_ofChars
  rw [String.toList_ofList]
  intro hminus
  obtain ⟨d, -, hd⟩ := List.mem_map.mp hminus
  exact d.char_ne_minus hd

end Keypad
