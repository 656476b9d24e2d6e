import Keypad.NumberText
import Keypad.Proofs.Decimal.Reading

/-!
# Number text reads back

The text that shows a number is read as that number: the shortest decimal reads back, either
notation keeps its value, and no blank stands in a numeral, so nothing is trimmed.  Only what the
text does not tell is lost, which is the sign of a zero.
-/

namespace Keypad

/-! ## Numerals hold no blanks -/

namespace Text

theorem not_isBlank_of_isDigit {c : Char} (hdigit : c.isDigit = true) : isBlank c = false := by
  have hrange : 48 ≤ c.toNat ∧ c.toNat ≤ 57 := by
    simpa [Char.isDigit, UInt32.le_iff_toNat_le] using hdigit
  simp only [isBlank, Bool.or_eq_false_iff, Bool.and_eq_false_iff, decide_eq_false_iff_not,
    beq_eq_false_iff_ne]
  omega

theorem trimStart_of_not_isBlank {cs : List Char} (hblank : ∀ c ∈ cs, isBlank c = false) :
    trimStart cs = cs := by
  cases cs with
  | nil => rfl
  | cons c cs => simp [trimStart, hblank c List.mem_cons_self]

theorem trim_of_not_isBlank {cs : List Char} (hblank : ∀ c ∈ cs, isBlank c = false) :
    trim cs = cs := by
  have hreverse : ∀ c ∈ cs.reverse, isBlank c = false := by simpa using hblank
  have hend : cs.reverse.dropWhile isBlank = cs.reverse := trimStart_of_not_isBlank hreverse
  rw [trim, trimStart_of_not_isBlank hblank, trimEnd, hend, List.reverse_reverse]

/-- A text that does not start with a blank keeps its start. -/
theorem exists_trim_cons {c : Char} (hblank : isBlank c = false) (cs : List Char) :
    ∃ rest, trim (c :: cs) = c :: rest := by
  have hstart : trimStart (c :: cs) = c :: cs := by simp [trimStart, hblank]
  rw [trim, hstart, trimEnd, List.reverse_cons, List.dropWhile_append]
  split
  · exact ⟨[], by simp [hblank]⟩
  · exact ⟨(cs.reverse.dropWhile isBlank).reverse, by simp⟩

end Text

namespace Numeral

/-- The characters that numerals are made of. -/
def isNumeralChar (c : Char) : Bool := c.isDigit || ['+', '-', '.', 'e', 'E'].contains c

theorem not_isBlank_of_isNumeralChar {c : Char} (hc : isNumeralChar c = true) :
    Text.isBlank c = false := by
  simp only [isNumeralChar, Bool.or_eq_true, List.contains_iff_mem, List.mem_cons,
    List.not_mem_nil, or_false] at hc
  rcases hc with hdigit | rfl | rfl | rfl | rfl | rfl
  · exact Text.not_isBlank_of_isDigit hdigit
  all_goals decide

theorem isNumeralChar_of_isDigit {c : Char} (hdigit : c.isDigit = true) :
    isNumeralChar c = true := by
  simp [isNumeralChar, hdigit]

theorem isNumeralChar_of_splitSign {cs : List Char}
    (hrest : ∀ c ∈ (splitSign cs).2, isNumeralChar c = true) :
    ∀ c ∈ cs, isNumeralChar c = true := by
  unfold splitSign at hrest
  split at hrest
  · exact List.forall_mem_cons.mpr ⟨rfl, hrest⟩
  · exact List.forall_mem_cons.mpr ⟨rfl, hrest⟩
  · exact hrest

theorem isNumeralChar_of_leadingDigits {cs : List Char}
    (hrest : ∀ c ∈ Text.afterDigits cs, isNumeralChar c = true) :
    ∀ c ∈ cs, isNumeralChar c = true := by
  intro c hc
  rw [← Text.leadingDigits_append_afterDigits cs] at hc
  rcases List.mem_append.mp hc with hdigit | hafter
  · exact isNumeralChar_of_isDigit (Text.isDigit_of_mem_leadingDigits hdigit)
  · exact hrest c hafter

theorem isNumeralChar_of_splitFraction {cs : List Char}
    (hrest : ∀ c ∈ (splitFraction cs).2, isNumeralChar c = true) :
    ∀ c ∈ cs, isNumeralChar c = true := by
  unfold splitFraction at hrest
  split at hrest
  · exact List.forall_mem_cons.mpr ⟨rfl, isNumeralChar_of_leadingDigits hrest⟩
  · exact hrest

theorem isNumeralChar_of_exponent? {cs : List Char} {exponent : Int}
    (hsome : exponent? cs = some exponent) : ∀ c ∈ cs, isNumeralChar c = true := by
  cases cs with
  | nil => simp
  | cons letter rest =>
      simp only [exponent?] at hsome
      split at hsome
      · next hform =>
          simp only [Bool.and_eq_true, Bool.or_eq_true, beq_iff_eq] at hform
          obtain ⟨⟨hletter, -⟩, hdigits⟩ := hform
          refine List.forall_mem_cons.mpr ⟨?_, ?_⟩
          · rcases hletter with rfl | rfl <;> rfl
          · apply isNumeralChar_of_splitSign
            intro c hc
            exact isNumeralChar_of_isDigit (List.all_eq_true.mp hdigits c hc)
      · cases hsome

/-- A text that is a numeral holds characters of numerals only. -/
theorem isNumeralChar_of_ofChars? {cs : List Char} {n : Numeral}
    (hsome : ofChars? cs = some n) : ∀ c ∈ cs, isNumeralChar c = true := by
  rw [ofChars?_eq] at hsome
  obtain ⟨d, hmagnitude, -⟩ := Option.map_eq_some_iff.mp hsome
  simp only [magnitude?] at hmagnitude
  split at hmagnitude
  · cases hmagnitude
  · obtain ⟨exponent, hexponent, -⟩ := Option.map_eq_some_iff.mp hmagnitude
    exact isNumeralChar_of_splitSign (isNumeralChar_of_leadingDigits
      (isNumeralChar_of_splitFraction (isNumeralChar_of_exponent? hexponent)))

end Numeral

namespace Binary64

/-! ## Reading a number's text -/

/-- The texts, trimmed, that are read without being numerals. -/
def spelledTexts : List (List Char) :=
  [[], "Infinity".toList, "+Infinity".toList, "-Infinity".toList]

theorem ofChars?_of_spelled : ∀ cs ∈ spelledTexts, Numeral.ofChars? cs = none := by decide

theorem ofChars_of_not_spelled {cs : List Char} (hspelled : Text.trim cs ∉ spelledTexts) :
    ofChars cs = ((Numeral.ofChars? (Text.trim cs)).map Numeral.toBinary64).getD .nan := by
  simp only [spelledTexts, List.mem_cons, List.not_mem_nil, or_false, not_or] at hspelled
  obtain ⟨hempty, hinfinity, hplus, hminus⟩ := hspelled
  simp only [ofChars, List.isEmpty_iff, hempty, hinfinity, hplus, hminus, or_self, if_false]
  cases Numeral.ofChars? (Text.trim cs) with
  | none => rfl
  | some numeral => rfl

/-- A numeral is read as the number nearest to it. -/
theorem ofChars_of_numeral {cs : List Char} {n : Numeral}
    (hsome : Numeral.ofChars? cs = some n) : ofChars cs = n.toBinary64 := by
  have htrim : Text.trim cs = cs := Text.trim_of_not_isBlank fun c hc =>
    Numeral.not_isBlank_of_isNumeralChar (Numeral.isNumeralChar_of_ofChars? hsome c hc)
  have hspelled : cs ∉ spelledTexts := by
    intro hmem
    rw [ofChars?_of_spelled cs hmem] at hsome
    cases hsome
  rw [ofChars_of_not_spelled (by rwa [htrim]), htrim, hsome, Option.map_some, Option.getD_some]

/-- A text is no number if it starts with a character that is neither blank nor the start of a
numeral or of a spelled infinity. -/
theorem ofChars_cons_eq_nan {c : Char} (hblank : Text.isBlank c = false)
    (hnumeral : Numeral.isNumeralChar c = false) (hne : c ≠ 'I') (cs : List Char) :
    ofChars (c :: cs) = .nan := by
  obtain ⟨rest, htrim⟩ := Text.exists_trim_cons hblank cs
  have hstarts : ∀ word ∈ spelledTexts,
      word.head?.all (fun d => d == 'I' || Numeral.isNumeralChar d) = true := by decide
  have hspelled : c :: rest ∉ spelledTexts := by
    intro hmem
    have hc := hstarts _ hmem
    simp [hnumeral, hne] at hc
  have hnone : Numeral.ofChars? (c :: rest) = none := by
    cases hread : Numeral.ofChars? (c :: rest) with
    | none => rfl
    | some n =>
        have hc := Numeral.isNumeralChar_of_ofChars? hread c List.mem_cons_self
        rw [hnumeral] at hc
        cases hc
  rw [ofChars_of_not_spelled (by rwa [htrim]), htrim, hnone, Option.map_none, Option.getD_none]

/-- The text of a magnitude with a sign is a numeral of the shortest decimal's value. -/
theorem exists_ofChars?_magnitudeText (negative : Bool) (rank : Nat) :
    ∃ d, Numeral.ofChars? (Numeral.signText negative ++ magnitudeText rank) =
      some ⟨negative, d⟩ ∧ d.value = (Decimal.shortest .up rank).value := by
  simp only [magnitudeText]
  split
  · exact Decimal.ofChars?_positional negative _
  · exact ⟨_, Decimal.ofChars?_scientific negative _, rfl⟩

theorem ofChars_magnitudeText (negative : Bool) (rank : Nat) :
    ofChars (Numeral.signText negative ++ magnitudeText rank) = ofRank negative rank := by
  obtain ⟨d, hnumeral, hvalue⟩ := exists_ofChars?_magnitudeText negative rank
  rw [ofChars_of_numeral hnumeral, Numeral.toBinary64, Decimal.toBinary64_congr negative hvalue,
    Decimal.toBinary64_shortest]

theorem toChars_finite (negative : Bool) (magnitude : Fin finiteCount) :
    toChars (.finite negative magnitude) =
      if magnitude.val = 0 then ['0']
      else Numeral.signText negative ++ magnitudeText magnitude := by
  unfold toChars
  cases negative <;> simp [Numeral.signText]

theorem ofText_toText_eq (x : Binary64) : ofText x.toText = ofChars x.toChars := by
  rw [ofText, toText, String.toList_ofList]

theorem ofText_toText_finite (negative : Bool) (magnitude : Fin finiteCount) :
    ofText (toText (.finite negative magnitude)) =
      if magnitude.val = 0 then zero false else .finite negative magnitude := by
  rw [ofText_toText_eq, toChars_finite]
  by_cases hzero : magnitude.val = 0
  · rw [if_pos hzero, if_pos hzero]
    decide +kernel
  · rw [if_neg hzero, if_neg hzero, ofChars_magnitudeText, ofRank_of_lt negative magnitude.isLt]

theorem ofText_toText_nan : ofText (toText .nan) = .nan := by decide +kernel

theorem ofText_toText_infinity (negative : Bool) :
    ofText (toText (.infinity negative)) = .infinity negative := by
  cases negative <;> decide +kernel

theorem toText_ne_empty (x : Binary64) : x.toText ≠ "" := by
  intro hempty
  have hread : ofText x.toText = zero false := by
    rw [hempty]
    decide +kernel
  cases x with
  | nan => exact absurd hempty (by decide)
  | infinity negative => cases negative <;> exact absurd hempty (by decide)
  | finite negative magnitude =>
      rw [ofText_toText_finite] at hread
      by_cases hzero : magnitude.val = 0
      · rw [toText, toChars_finite, if_pos hzero] at hempty
        exact absurd hempty (by decide)
      · rw [if_neg hzero] at hread
        exact hzero (congrArg Fin.val (Binary64.finite.inj hread).2)

/-- Every number is read back from the text that shows it, but a zero loses its sign. -/
theorem ofText_toText (x : Binary64) :
    ofText x.toText = if x.isZero then zero false else x := by
  cases x with
  | nan => exact ofText_toText_nan
  | infinity negative => exact ofText_toText_infinity negative
  | finite negative magnitude => simp [ofText_toText_finite, isZero]

end Binary64

end Keypad
