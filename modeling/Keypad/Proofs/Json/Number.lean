import Keypad.Json.Number
import Keypad.Proofs.Decimal.Reading
import Keypad.Proofs.Decimal.Shortest

/-!
# Which numbers a JSON text holds

The reader gathers the digits of a text into one whole number and scales it once.  It takes in all
digits of a shortest decimal, since seventeen of them and the zero of a whole number fit 64 bits.
So what is read from the text of a decimal is that decimal, with its digits rounded before they are
scaled.
-/

namespace Keypad.Json

open Numeral (fractionText exponentText startsApart)

/-! ## Digits -/

theorem le_ofDigitChars (ds : List Char) (significand : Nat) :
    significand ≤ Nat.ofDigitChars 10 ds significand := by
  induction ds generalizing significand with
  | nil => exact le_rfl
  | cons c ds ih =>
      rw [Nat.ofDigitChars_cons]
      exact le_trans (by omega) (ih _)

/-- Digits that fit are gathered all together. -/
theorem gather_append {significand : Nat} {ds rest : List Char}
    (hds : ∀ c ∈ ds, c.isDigit = true)
    (hfits : Nat.ofDigitChars 10 ds significand ≤ maxSignificand)
    (hrest : ∀ c ∈ rest.head?, c.isDigit = false) :
    gather significand (ds ++ rest) =
      (Nat.ofDigitChars 10 ds significand, ds.length, rest) := by
  induction ds generalizing significand with
  | nil =>
      cases rest with
      | nil => rfl
      | cons c rest =>
          rw [List.nil_append, gather, hrest c rfl, Bool.false_and, if_neg Bool.false_ne_true]
          rfl
  | cons c ds ih =>
      rw [List.forall_mem_cons] at hds
      rw [Nat.ofDigitChars_cons, Nat.mul_comm 10] at hfits
      have hnext := (le_ofDigitChars ds _).trans hfits
      rw [List.cons_append, gather, hds.1, Bool.true_and, if_pos (decide_eq_true hnext),
        ih hds.2 hfits, Nat.ofDigitChars_cons, Nat.mul_comm 10]
      rfl

/-- The fraction is gathered onto the digits before the point. -/
theorem readFraction?_fractionText {significand : Nat} {fraction rest : List Char}
    (hfraction : ∀ c ∈ fraction, c.isDigit = true) (hrest : startsApart rest)
    (hfits : Nat.ofDigitChars 10 fraction significand ≤ maxSignificand) :
    readFraction? significand (fractionText fraction ++ rest) =
      some (Nat.ofDigitChars 10 fraction significand, fraction.length, rest) := by
  by_cases hempty : fraction = []
  · subst hempty
    change readFraction? significand rest = some (significand, 0, rest)
    unfold readFraction?
    split
    · exact absurd rfl (hrest _ rfl).2
    · rfl
  · have hnodigit : ∀ c ∈ rest.head?, c.isDigit = false := fun c hc => (hrest c hc).1
    obtain ⟨hleading, hafter⟩ := Numeral.leadingDigits_append hfraction hnodigit
    rw [Numeral.fractionText_of_ne_nil hempty, List.cons_append, readFraction?, hleading,
      if_neg (by simpa using hempty), gather_append hfraction hfits hnodigit]
    dsimp only
    have hrest' := (Numeral.leadingDigits_append (List.forall_mem_nil _) hnodigit).2
    rw [List.nil_append] at hrest'
    rw [hrest']

/-- A number in parts is read as its digits, scaled by the exponent. -/
theorem readMagnitude?_parts {whole fraction rest after : List Char} {exponent : Int}
    (hne : whole ≠ []) (hlead : whole = ['0'] ∨ whole.head? ≠ some '0')
    (hwhole : ∀ c ∈ whole, c.isDigit = true) (hfraction : ∀ c ∈ fraction, c.isDigit = true)
    (hrest : startsApart rest)
    (hfits : Text.digitsValue (whole ++ fraction) ≤ maxSignificand)
    (hexponent : readExponent? rest = some (exponent, after)) :
    readMagnitude? (whole ++ (fractionText fraction ++ rest)) =
      (scaleByTen (Decimal.toBinary64 false ⟨Text.digitsValue (whole ++ fraction), 0⟩)
        (exponent - fraction.length)).map fun number => (number, after) := by
  have hhead : ∀ c ∈ (fractionText fraction ++ rest).head?, c.isDigit = false := by
    by_cases hempty : fraction = []
    · subst hempty
      exact fun c hc => (hrest c hc).1
    · rw [Numeral.fractionText_of_ne_nil hempty]
      intro c hc
      cases hc
      decide
  obtain ⟨hleading, hafter⟩ := Numeral.leadingDigits_append hwhole hhead
  have hvalue : Text.digitsValue (whole ++ fraction) =
      Nat.ofDigitChars 10 fraction (Text.digitsValue whole) := Nat.ofDigitChars_append _
  rw [hvalue] at hfits ⊢
  have hgather := @gather_append 0 whole [] hwhole ((le_ofDigitChars fraction _).trans hfits)
    (by simp)
  rw [List.append_nil] at hgather
  have haccepted : (whole.isEmpty || (whole.head? == some '0' && whole.length != 1)) = false := by
    rcases hlead with rfl | hlead
    · rfl
    · simp [hne, hlead]
  rw [readMagnitude?]
  dsimp only
  rw [hleading, haccepted, if_neg Bool.false_ne_true, hgather, hafter]
  dsimp only
  rw [← Text.digitsValue, readFraction?_fractionText hfraction hrest hfits]
  simp only [Option.bind_eq_bind, Option.bind_some, hexponent]
  rw [Nat.sub_self, Nat.cast_zero, zero_sub, ← sub_eq_add_neg, Option.map_eq_bind]
  rfl

/-! ## The text of a decimal -/

/-- Whether a text cannot go on with a number. -/
def EndsNumber (cs : List Char) : Prop :=
  ∀ c ∈ cs.head?, c.isDigit = false ∧ c ≠ '.' ∧ c ≠ 'e' ∧ c ≠ 'E'

theorem EndsNumber.startsApart {cs : List Char} (hend : EndsNumber cs) : startsApart cs :=
  fun c hc => ⟨(hend c hc).1, (hend c hc).2.1⟩

theorem EndsNumber.readExponent? {cs : List Char} (hend : EndsNumber cs) :
    readExponent? cs = some (0, cs) := by
  cases cs with
  | nil => rfl
  | cons c cs =>
      obtain ⟨-, -, hlower, hupper⟩ := hend c rfl
      rw [Json.readExponent?, if_neg (by simp [hlower, hupper])]

theorem readExponent?_exponentText (exponent : Int) {rest : List Char} (hend : EndsNumber rest) :
    readExponent? (exponentText exponent ++ rest) = some (exponent, rest) := by
  have hdigits : ∀ c ∈ Nat.toDigits 10 exponent.natAbs, c.isDigit = true :=
    fun c hc => Nat.isDigit_of_mem_toDigits (by decide) (by decide) hc
  obtain ⟨hleading, hafter⟩ := Numeral.leadingDigits_append hdigits fun c hc => (hend c hc).1
  have hempty : (Nat.toDigits 10 exponent.natAbs).isEmpty = false := by
    simp [Nat.toDigits_ne_nil]
  by_cases hsign : 0 ≤ exponent
  · simp [exponentText, hsign, Json.readExponent?, Numeral.splitSign, hleading, hafter, hempty,
      abs_of_nonneg]
  · simp [exponentText, hsign, Json.readExponent?, Numeral.splitSign, hleading, hafter, hempty,
      abs_of_neg (not_le.mp hsign)]

/-- The decimal that the digits and the exponent in the text of a decimal spell: the digits of a
whole number end with the zero behind its point. -/
def spelled (d : Decimal) : Decimal :=
  if positionalFrom ≤ d.leadingExponent ∧ d.leadingExponent ≤ positionalUpTo ∧ 0 ≤ d.exponent then
    ⟨d.coefficient * 10 ^ (d.exponent.toNat + 1), -1⟩
  else d

theorem value_spelled (d : Decimal) : (spelled d).value = d.value := by
  rw [spelled]
  split
  · next hwhole =>
      obtain ⟨places, hplaces⟩ := Int.eq_ofNat_of_zero_le hwhole.2.2
      rw [Decimal.value, Decimal.value, hplaces, Int.toNat_natCast]
      push_cast
      rw [zpow_natCast, pow_succ, zpow_neg_one]
      field_simp
  · rfl

/-- The text of a whole number holds at most seventeen digits. -/
theorem coefficient_spelled_le {d : Decimal} (hle : d.coefficient ≤ 10 ^ 17) :
    (spelled d).coefficient ≤ 10 ^ 17 := by
  rw [spelled]
  split
  · next hwhole =>
      obtain ⟨-, hupTo, hexponent⟩ := hwhole
      have hlt : d.coefficient < 10 ^ d.digits.length :=
        (Nat.length_toDigits_le_iff (by decide) Nat.length_toDigits_pos).mp le_rfl
      have hplaces : d.digits.length + (d.exponent.toNat + 1) ≤ 17 := by
        rw [Decimal.leadingExponent, positionalUpTo] at hupTo
        omega
      calc d.coefficient * 10 ^ (d.exponent.toNat + 1)
          ≤ 10 ^ d.digits.length * 10 ^ (d.exponent.toNat + 1) := Nat.mul_le_mul_right _ hlt.le
        _ = 10 ^ (d.digits.length + (d.exponent.toNat + 1)) := (Nat.pow_add _ _ _).symm
        _ ≤ 10 ^ 17 := Nat.pow_le_pow_right (by decide) hplaces
  · exact hle

theorem digitsValue_whole (d : Decimal) :
    Text.digitsValue (d.digits ++ Decimal.zeros d.exponent.toNat ++ ['0']) =
      d.coefficient * 10 ^ (d.exponent.toNat + 1) := by
  rw [show ['0'] = Decimal.zeros 1 from rfl, Decimal.digitsValue_append_zeros,
    Decimal.digitsValue_append_zeros, Decimal.digitsValue_digits, mul_assoc, ← pow_add]

theorem isDigit_of_mem_whole (d : Decimal) :
    ∀ c ∈ d.digits ++ Decimal.zeros d.exponent.toNat, c.isDigit = true :=
  List.forall_mem_append.mpr
    ⟨fun _ => Decimal.isDigit_of_mem_digits, fun _ => Decimal.isDigit_of_mem_zeros⟩

theorem readMagnitude?_whole {d : Decimal} (hpos : 0 < d.coefficient) (hexponent : 0 ≤ d.exponent)
    (hfits : d.coefficient * 10 ^ (d.exponent.toNat + 1) ≤ maxSignificand) {rest : List Char}
    (hend : EndsNumber rest) :
    readMagnitude? (d.positional ++ ['.', '0'] ++ rest) =
      (scaleByTen (Decimal.toBinary64 false ⟨d.coefficient * 10 ^ (d.exponent.toNat + 1), 0⟩)
        (-1)).map fun number => (number, rest) := by
  have hhead : (d.digits ++ Decimal.zeros d.exponent.toNat).head? ≠ some '0' := by
    rw [List.head?_append_of_ne_nil _ d.digits_ne_nil]
    exact Decimal.head?_toDigits_ne_zero hpos
  rw [← digitsValue_whole] at hfits ⊢
  have hparts := @readMagnitude?_parts (d.digits ++ Decimal.zeros d.exponent.toNat) ['0'] rest rest
    0 (by simp [d.digits_ne_nil]) (Or.inr hhead) (isDigit_of_mem_whole d) (by simp)
    hend.startsApart hfits hend.readExponent?
  rw [Decimal.positional, if_pos hexponent, List.append_assoc]
  exact hparts

theorem readMagnitude?_positional {d : Decimal} (hpos : 0 < d.coefficient)
    (hneg : d.exponent < 0) (hfits : d.coefficient ≤ maxSignificand) {rest : List Char}
    (hend : EndsNumber rest) :
    readMagnitude? (d.positional ++ rest) =
      (scaleByTen (Decimal.toBinary64 false ⟨d.coefficient, 0⟩) d.exponent).map
        fun number => (number, rest) := by
  obtain ⟨whole, fraction, htext, hne, hne', hwhole, hfraction, hvalue, hplaces, hlead⟩ :=
    Decimal.exists_positional hneg
  have hlead' : whole = ['0'] ∨ whole.head? ≠ some '0' := by
    apply hlead.imp_right
    intro hhead
    rw [hhead]
    exact Decimal.head?_toDigits_ne_zero hpos
  have hparts := readMagnitude?_parts hne hlead' hwhole hfraction hend.startsApart
    (hvalue ▸ hfits) hend.readExponent?
  rw [hvalue, zero_sub, hplaces, Numeral.fractionText_of_ne_nil hne'] at hparts
  rw [htext, List.append_assoc]
  exact hparts

theorem readMagnitude?_scientific {d : Decimal} (hpos : 0 < d.coefficient)
    (hfits : d.coefficient ≤ maxSignificand) {rest : List Char} (hend : EndsNumber rest) :
    readMagnitude? (d.scientific ++ rest) =
      (scaleByTen (Decimal.toBinary64 false ⟨d.coefficient, 0⟩) d.exponent).map
        fun number => (number, rest) := by
  obtain ⟨first, fraction, hdigits⟩ := List.exists_cons_of_ne_nil d.digits_ne_nil
  have hmem : ∀ c ∈ first :: fraction, c.isDigit = true := by
    intro c hc
    exact Decimal.isDigit_of_mem_digits (hdigits ▸ hc)
  have hvalue : Text.digitsValue ([first] ++ fraction) = d.coefficient := by
    rw [List.singleton_append, ← hdigits, Decimal.digitsValue_digits]
  have hhead : [first].head? ≠ some '0' := by
    have hhead := Decimal.head?_toDigits_ne_zero hpos
    rwa [← Decimal.digits, hdigits] at hhead
  have hexponent : d.leadingExponent - fraction.length = d.exponent := by
    rw [Decimal.leadingExponent, hdigits, List.length_cons]
    omega
  have hstart : startsApart (exponentText d.leadingExponent ++ rest) := by
    simp [startsApart, exponentText]
  have hparts := @readMagnitude?_parts [first] fraction _ rest d.leadingExponent
    (List.cons_ne_nil first []) (Or.inr hhead)
    (fun c hc => hmem c (List.mem_cons.mpr (Or.inl (List.mem_singleton.mp hc))))
    (fun c hc => hmem c (List.mem_cons_of_mem _ hc)) hstart (hvalue ▸ hfits)
    (readExponent?_exponentText _ hend)
  rw [hvalue, hexponent] at hparts
  rw [Decimal.scientific_eq hdigits, List.append_assoc, List.append_assoc]
  exact hparts

/-- The text of a decimal is that of a whole number with a point and a zero, or it is the decimal in
one of the two notations, and then spells the decimal itself. -/
theorem writeDecimal_cases (d : Decimal) :
    (0 ≤ d.exponent ∧ writeDecimal d = d.positional ++ ['.', '0'] ∧
        spelled d = ⟨d.coefficient * 10 ^ (d.exponent.toNat + 1), -1⟩) ∨
      (d.exponent < 0 ∧ writeDecimal d = d.positional ∧ spelled d = d) ∨
      (writeDecimal d = d.scientific ∧ spelled d = d) := by
  rw [writeDecimal]
  by_cases hplaces : positionalFrom ≤ d.leadingExponent ∧ d.leadingExponent ≤ positionalUpTo
  · rw [if_pos hplaces]
    by_cases hexponent : 0 ≤ d.exponent
    · rw [if_pos hexponent, spelled, if_pos ⟨hplaces.1, hplaces.2, hexponent⟩]
      exact Or.inl ⟨hexponent, rfl, rfl⟩
    · rw [if_neg hexponent, spelled, if_neg fun hwhole => hexponent hwhole.2.2]
      exact Or.inr (Or.inl ⟨not_le.mp hexponent, rfl, rfl⟩)
  · rw [if_neg hplaces, spelled, if_neg fun hwhole => hplaces ⟨hwhole.1, hwhole.2.1⟩]
    exact Or.inr (Or.inr ⟨rfl, rfl⟩)

/-- What is read from the text of a decimal is the decimal that it spells, with its digits rounded
before they are scaled. -/
theorem readMagnitude?_writeDecimal {d : Decimal} (hpos : 0 < d.coefficient)
    (hfits : (spelled d).coefficient ≤ maxSignificand) {rest : List Char}
    (hend : EndsNumber rest) :
    readMagnitude? (writeDecimal d ++ rest) =
      (scaleByTen (Decimal.toBinary64 false ⟨(spelled d).coefficient, 0⟩)
        (spelled d).exponent).map fun number => (number, rest) := by
  rcases writeDecimal_cases d with ⟨hexponent, htext, hspelled⟩ | ⟨hneg, htext, hspelled⟩ |
    ⟨htext, hspelled⟩
  · rw [hspelled] at hfits
    rw [htext, hspelled]
    exact readMagnitude?_whole hpos hexponent hfits hend
  · rw [hspelled] at hfits
    rw [htext, hspelled]
    exact readMagnitude?_positional hpos hneg hfits hend
  · rw [hspelled] at hfits
    rw [htext, hspelled]
    exact readMagnitude?_scientific hpos hfits hend

end Keypad.Json
