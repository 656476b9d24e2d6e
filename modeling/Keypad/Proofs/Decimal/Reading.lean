import Keypad.Decimal.Layout
import Keypad.Decimal.Numeral
import Keypad.Proofs.Decimal.Value
import Mathlib.Data.List.TakeWhile

/-!
# Reading back what was laid out

A numeral without its sign is a run of digits, a fraction and an exponent, and each of the three
is read off in turn.  Positional and exponent notation both put the digits of a decimal around a
point, so reading either gives a decimal of the same value.
-/

namespace Keypad

namespace Numeral

/-! ## Numerals in parts -/

/-- The magnitude that a text without a sign means, if it is a numeral. -/
def magnitude? (unsigned : List Char) : Option Decimal :=
  let whole := Text.leadingDigits unsigned
  let (fraction, rest) := splitFraction (Text.afterDigits unsigned)
  if whole.isEmpty && fraction.isEmpty then none
  else (exponent? rest).map fun exponent =>
    ⟨Text.digitsValue (whole ++ fraction), exponent - fraction.length⟩

theorem ofChars?_eq (cs : List Char) :
    ofChars? cs = (magnitude? (splitSign cs).2).map fun d => ⟨(splitSign cs).1, d⟩ := by
  simp only [ofChars?, magnitude?]
  split
  · rfl
  · rw [Option.map_map]
    rfl

theorem splitSign_of_isDigit {c : Char} (hdigit : c.isDigit = true) (cs : List Char) :
    splitSign (c :: cs) = (false, c :: cs) := by
  unfold splitSign
  split
  · next heq =>
      cases heq
      exact absurd hdigit (by decide)
  · next heq =>
      cases heq
      exact absurd hdigit (by decide)
  · rfl

/-- The fraction as it is written: nothing, or a point and its digits. -/
def fractionText (fraction : List Char) : List Char :=
  if fraction.isEmpty then [] else '.' :: fraction

/-- Whether a text starts with neither a digit nor a point. -/
def startsApart (cs : List Char) : Prop := ∀ c ∈ cs.head?, c.isDigit = false ∧ c ≠ '.'

theorem leadingDigits_append {digits rest : List Char}
    (hdigits : ∀ c ∈ digits, c.isDigit = true) (hrest : ∀ c ∈ rest.head?, c.isDigit = false) :
    Text.leadingDigits (digits ++ rest) = digits ∧ Text.afterDigits (digits ++ rest) = rest := by
  have hleading : Text.leadingDigits rest = [] ∧ Text.afterDigits rest = rest := by
    cases rest with
    | nil => exact ⟨rfl, rfl⟩
    | cons c rest =>
        have hc : c.isDigit = false := hrest c rfl
        simp [Text.leadingDigits, Text.afterDigits, hc]
  obtain ⟨htake, hdrop⟩ := hleading
  rw [Text.leadingDigits] at htake
  rw [Text.afterDigits] at hdrop
  rw [Text.leadingDigits, Text.afterDigits, List.takeWhile_append_of_pos hdigits,
    List.dropWhile_append_of_pos hdigits, htake, hdrop, List.append_nil]
  exact ⟨rfl, rfl⟩

theorem splitFraction_fractionText {fraction rest : List Char}
    (hfraction : ∀ c ∈ fraction, c.isDigit = true) (hrest : startsApart rest) :
    splitFraction (fractionText fraction ++ rest) = (fraction, rest) := by
  cases fraction with
  | nil =>
      cases rest with
      | nil => rfl
      | cons c rest =>
          have hpoint : c ≠ '.' := (hrest c rfl).2
          unfold splitFraction fractionText
          split
          · next heq => simp_all
          · rfl
  | cons c fraction =>
      have hparts := leadingDigits_append hfraction fun c hc => (hrest c hc).1
      simp only [fractionText, List.isEmpty_cons, Bool.false_eq_true, if_false, List.cons_append,
        splitFraction]
      rw [← List.cons_append, hparts.1, hparts.2]

theorem magnitude?_parts {whole fraction rest : List Char} (hne : whole ≠ [])
    (hwhole : ∀ c ∈ whole, c.isDigit = true) (hfraction : ∀ c ∈ fraction, c.isDigit = true)
    (hrest : startsApart rest) :
    magnitude? (whole ++ (fractionText fraction ++ rest)) = (exponent? rest).map fun exponent =>
      ⟨Text.digitsValue (whole ++ fraction), exponent - fraction.length⟩ := by
  have hhead : ∀ c ∈ (fractionText fraction ++ rest).head?, c.isDigit = false := by
    cases fraction with
    | nil => exact fun c hc => (hrest c hc).1
    | cons d fraction =>
        intro c hc
        cases hc
        decide
  have hparts := leadingDigits_append hwhole hhead
  have hempty : whole.isEmpty = false := by simpa using hne
  simp only [magnitude?, hparts.1, hparts.2, splitFraction_fractionText hfraction hrest, hempty,
    Bool.false_and, Bool.false_eq_true, if_false]

def signText (negative : Bool) : List Char := if negative then ['-'] else []

theorem splitSign_signText (negative : Bool) {cs : List Char}
    (hdigit : ∀ c ∈ cs.head?, c.isDigit = true) :
    splitSign (signText negative ++ cs) = (negative, cs) := by
  cases negative with
  | true => rfl
  | false =>
      cases cs with
      | nil => rfl
      | cons c cs => exact splitSign_of_isDigit (hdigit c rfl) cs

/-- The sign, the digits, the fraction and the exponent of a numeral are read off in turn. -/
theorem ofChars?_parts (negative : Bool) {whole fraction rest : List Char} (hne : whole ≠ [])
    (hwhole : ∀ c ∈ whole, c.isDigit = true) (hfraction : ∀ c ∈ fraction, c.isDigit = true)
    (hrest : startsApart rest) :
    ofChars? (signText negative ++ (whole ++ (fractionText fraction ++ rest))) =
      (exponent? rest).map fun exponent =>
        ⟨negative, Text.digitsValue (whole ++ fraction), exponent - fraction.length⟩ := by
  have hhead : ∀ c ∈ (whole ++ (fractionText fraction ++ rest)).head?, c.isDigit = true := by
    cases whole with
    | nil => exact absurd rfl hne
    | cons d whole =>
        intro c hc
        cases hc
        exact hwhole d List.mem_cons_self
  rw [ofChars?_eq, splitSign_signText negative hhead,
    magnitude?_parts hne hwhole hfraction hrest, Option.map_map]
  rfl

theorem startsApart_nil : startsApart [] := by
  simp [startsApart]

theorem fractionText_of_ne_nil {fraction : List Char} (hne : fraction ≠ []) :
    fractionText fraction = '.' :: fraction := by
  simp [fractionText, hne]

theorem ofChars?_whole (negative : Bool) {whole : List Char} (hne : whole ≠ [])
    (hwhole : ∀ c ∈ whole, c.isDigit = true) :
    ofChars? (signText negative ++ whole) = some ⟨negative, Text.digitsValue whole, 0⟩ := by
  have hnone : ∀ c ∈ ([] : List Char), c.isDigit = true := by simp
  have hparts := ofChars?_parts negative hne hwhole hnone startsApart_nil
  simpa [fractionText, exponent?] using hparts

/-- Digits around a point are those digits with the places after the point counted. -/
theorem ofChars?_point (negative : Bool) {whole fraction : List Char} (hne : whole ≠ [])
    (hne' : fraction ≠ []) (hwhole : ∀ c ∈ whole, c.isDigit = true)
    (hfraction : ∀ c ∈ fraction, c.isDigit = true) :
    ofChars? (signText negative ++ (whole ++ '.' :: fraction)) =
      some ⟨negative, Text.digitsValue (whole ++ fraction), -fraction.length⟩ := by
  have hparts := ofChars?_parts negative hne hwhole hfraction startsApart_nil
  rw [fractionText_of_ne_nil hne', List.append_nil] at hparts
  simpa [exponent?] using hparts

/-- An exponent as it is written: a letter, a sign and digits. -/
def exponentText (exponent : Int) : List Char :=
  'e' :: (if 0 ≤ exponent then '+' else '-') :: Nat.toDigits 10 exponent.natAbs

theorem startsApart_exponentText (exponent : Int) : startsApart (exponentText exponent) := by
  simp [startsApart, exponentText]

theorem exponent?_exponentText (exponent : Int) :
    exponent? (exponentText exponent) = some exponent := by
  have hempty : (Nat.toDigits 10 exponent.natAbs).isEmpty = false := by
    simp [Nat.toDigits_ne_nil]
  have hall : (Nat.toDigits 10 exponent.natAbs).all Char.isDigit = true :=
    List.all_eq_true.mpr fun c hc => Nat.isDigit_of_mem_toDigits (by decide) (by decide) hc
  by_cases hsign : 0 ≤ exponent
  · simp [exponentText, hsign, exponent?, splitSign, hempty, hall, abs_of_nonneg]
  · simp [exponentText, hsign, exponent?, splitSign, hempty, hall,
      abs_of_neg (not_le.mp hsign)]

end Numeral

namespace Decimal

/-! ## Digits -/

theorem isDigit_of_mem_digits {d : Decimal} {c : Char} (hc : c ∈ d.digits) :
    c.isDigit = true :=
  Nat.isDigit_of_mem_toDigits (by decide) (by decide) hc

theorem isDigit_of_mem_zeros {count : Nat} {c : Char} (hc : c ∈ zeros count) :
    c.isDigit = true := by
  rw [List.eq_of_mem_replicate hc]
  rfl

theorem digits_ne_nil (d : Decimal) : d.digits ≠ [] := Nat.toDigits_ne_nil

theorem digitsValue_digits (d : Decimal) : Text.digitsValue d.digits = d.coefficient :=
  Text.digitsValue_toDigits d.coefficient

theorem digitsValue_append_zeros (ds : List Char) (count : Nat) :
    Text.digitsValue (ds ++ zeros count) = Text.digitsValue ds * 10 ^ count := by
  rw [Text.digitsValue, Nat.ofDigitChars_append, zeros, Nat.ofDigitChars_replicate_zero,
    Nat.mul_comm, Text.digitsValue]

theorem digitsValue_zeros_append (count : Nat) (ds : List Char) :
    Text.digitsValue (zeros count ++ ds) = Text.digitsValue ds := by
  rw [Text.digitsValue, Nat.ofDigitChars_append, zeros, Nat.ofDigitChars_replicate_zero,
    Nat.mul_zero, Text.digitsValue]

/-! ## The two notations -/

/-- The digits of a positive number do not start with a zero. -/
theorem head?_toDigits_ne_zero {n : Nat} (hpos : 0 < n) :
    (Nat.toDigits 10 n).head? ≠ some '0' := by
  induction n using Nat.strongRecOn with
  | ind n ih =>
      by_cases hsmall : n < 10
      · have hdigit : ∀ n < 10, 0 < n → Nat.digitChar n ≠ '0' := by decide
        rw [Nat.toDigits_of_lt_base hsmall, List.head?_cons, ne_eq, Option.some_inj]
        exact hdigit n hsmall hpos
      · rw [Nat.toDigits_of_base_le (by decide) (by omega),
          List.head?_append_of_ne_nil _ Nat.toDigits_ne_nil]
        exact ih _ (by omega) (by omega)

/-- Positional notation of a decimal with places behind the point: digits, the point, and these
places.  No zero stands in front of other digits before the point. -/
theorem exists_positional {d : Decimal} (hneg : d.exponent < 0) :
    ∃ whole fraction, d.positional = whole ++ '.' :: fraction ∧ whole ≠ [] ∧ fraction ≠ [] ∧
      (∀ c ∈ whole, c.isDigit = true) ∧ (∀ c ∈ fraction, c.isDigit = true) ∧
      Text.digitsValue (whole ++ fraction) = d.coefficient ∧ -(fraction.length : Int) = d.exponent ∧
      (whole = ['0'] ∨ whole.head? = d.digits.head?) := by
  obtain ⟨places, hplaces⟩ := Int.eq_ofNat_of_zero_le (a := -d.exponent) (by omega)
  have hexponent : -(places : Int) = d.exponent := by omega
  have hlength := List.length_pos_iff.mpr d.digits_ne_nil
  rw [positional, if_neg (by omega), hplaces, Int.toNat_natCast]
  dsimp only
  split
  · -- The point stands among the digits.
    have hdrop : (d.digits.drop (d.digits.length - places)).length = places := by
      rw [List.length_drop]
      omega
    refine ⟨_, _, rfl, List.ne_nil_of_length_pos (by rw [List.length_take]; omega),
      List.ne_nil_of_length_pos (by omega), ?_, ?_, ?_, ?_, Or.inr ?_⟩
    · exact fun c hc => isDigit_of_mem_digits (List.mem_of_mem_take hc)
    · exact fun c hc => isDigit_of_mem_digits (List.mem_of_mem_drop hc)
    · rw [List.take_append_drop, digitsValue_digits]
    · rw [hdrop, hexponent]
    · rw [List.head?_take, if_neg (by omega)]
  · -- The point stands before the digits.
    have hfraction : ∀ c ∈ zeros (places - d.digits.length) ++ d.digits, c.isDigit = true :=
      List.forall_mem_append.mpr ⟨fun _ => isDigit_of_mem_zeros, fun _ => isDigit_of_mem_digits⟩
    have hcount : (zeros (places - d.digits.length) ++ d.digits).length = places := by
      rw [List.length_append, zeros, List.length_replicate]
      omega
    refine ⟨zeros 1, _, rfl, by simp [zeros], List.ne_nil_of_length_pos (by omega),
      fun c hc => isDigit_of_mem_zeros hc, hfraction, ?_, ?_, Or.inl rfl⟩
    · rw [digitsValue_zeros_append, digitsValue_zeros_append, digitsValue_digits]
    · rw [hcount, hexponent]

theorem ofChars?_positional_of_neg (negative : Bool) {d : Decimal} (hneg : d.exponent < 0) :
    Numeral.ofChars? (Numeral.signText negative ++ d.positional) = some ⟨negative, d⟩ := by
  obtain ⟨whole, fraction, htext, hne, hne', hwhole, hfraction, hvalue, hplaces, -⟩ :=
    exists_positional hneg
  rw [htext, Numeral.ofChars?_point negative hne hne' hwhole hfraction, hvalue, hplaces]

/-- Positional notation is read as a decimal of the same value. -/
theorem ofChars?_positional (negative : Bool) (d : Decimal) :
    ∃ d', Numeral.ofChars? (Numeral.signText negative ++ d.positional) = some ⟨negative, d'⟩ ∧
      d'.value = d.value := by
  by_cases hexponent : 0 ≤ d.exponent
  · obtain ⟨places, hplaces⟩ := Int.eq_ofNat_of_zero_le hexponent
    have hdigits : ∀ c ∈ d.digits ++ zeros places, c.isDigit = true :=
      List.forall_mem_append.mpr ⟨fun _ => isDigit_of_mem_digits, fun _ => isDigit_of_mem_zeros⟩
    refine ⟨⟨d.coefficient * 10 ^ places, 0⟩, ?_, ?_⟩
    · rw [positional, if_pos hexponent, hplaces, Int.toNat_natCast,
        Numeral.ofChars?_whole negative (by simp [digits_ne_nil]) hdigits,
        digitsValue_append_zeros, digitsValue_digits]
    · rw [value, value, hplaces]
      push_cast
      simp
  · exact ⟨d, ofChars?_positional_of_neg negative (by omega), rfl⟩

theorem scientific_eq {d : Decimal} {first : Char} {rest : List Char}
    (hdigits : d.digits = first :: rest) :
    d.scientific =
      [first] ++ (Numeral.fractionText rest ++ Numeral.exponentText d.leadingExponent) := by
  cases rest <;> simp [scientific, hdigits, Numeral.fractionText, Numeral.exponentText]

/-- Exponent notation is read as the decimal itself. -/
theorem ofChars?_scientific (negative : Bool) (d : Decimal) :
    Numeral.ofChars? (Numeral.signText negative ++ d.scientific) = some ⟨negative, d⟩ := by
  obtain ⟨first, rest, hdigits⟩ := List.exists_cons_of_ne_nil d.digits_ne_nil
  have hmem : ∀ c ∈ first :: rest, c.isDigit = true := by
    intro c hc
    exact isDigit_of_mem_digits (hdigits ▸ hc)
  have hvalue : Text.digitsValue ([first] ++ rest) = d.coefficient := by
    rw [List.singleton_append, ← hdigits, digitsValue_digits]
  have hexponent : d.leadingExponent - rest.length = d.exponent := by
    rw [leadingExponent, hdigits, List.length_cons]
    omega
  rw [scientific_eq hdigits, Numeral.ofChars?_parts negative (List.cons_ne_nil first [])
    (fun c hc => hmem c (List.mem_cons.mpr (Or.inl (List.mem_singleton.mp hc))))
    (fun c hc => hmem c (List.mem_cons_of_mem _ hc)) (Numeral.startsApart_exponentText _),
    Numeral.exponent?_exponentText, Option.map_some, hvalue, hexponent]

end Decimal

end Keypad
