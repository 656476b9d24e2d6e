import Keypad.Proofs.Decimal.Reading

/-!
# The grammar of numerals

A numeral is a sign, a mantissa and an exponent, of which only the mantissa must be there.  The
grammar says what each part may be and what it is worth, without saying how it is read.  A text
is read as a numeral exactly if it has such parts, and the decimal that is read is worth exactly
what they are.
-/

namespace Keypad

namespace Numeral

/-! ## The parts -/

def IsDigits (cs : List Char) : Prop := ∀ c ∈ cs, c.isDigit = true

/-- An optional sign, and whether it is a minus: `[+-]?`. -/
inductive SignText : Bool → List Char → Prop
  | absent : SignText false []
  | plus : SignText false ['+']
  | minus : SignText true ['-']

/-- Digits and at most one point, and their value: `D+ (. D*)? | . D+`. -/
inductive MantissaText : ℚ → List Char → Prop
  | whole {ds : List Char} (hdigits : IsDigits ds) (hne : ds ≠ []) :
      MantissaText (Text.digitsValue ds) ds
  | point {ds fraction : List Char} (hdigits : IsDigits ds) (hne : ds ≠ [])
      (hfraction : IsDigits fraction) :
      MantissaText (Text.digitsValue ds + Text.digitsValue fraction / 10 ^ fraction.length)
        (ds ++ '.' :: fraction)
  | fraction {fraction : List Char} (hfraction : IsDigits fraction) (hne : fraction ≠ []) :
      MantissaText (Text.digitsValue fraction / 10 ^ fraction.length) ('.' :: fraction)

/-- An optional power of ten: `([eE] [+-]? D+)?`. -/
inductive ExponentText : Int → List Char → Prop
  | absent : ExponentText 0 []
  | present {letter : Char} {negative : Bool} {sign ds : List Char}
      (hletter : letter = 'e' ∨ letter = 'E') (hsign : SignText negative sign)
      (hdigits : IsDigits ds) (hne : ds ≠ []) :
      ExponentText (if negative then -(Text.digitsValue ds : Int) else Text.digitsValue ds)
        (letter :: (sign ++ ds))

/-- A numeral, whether it has a minus sign, and its absolute value. -/
inductive NumeralText : Bool → ℚ → List Char → Prop
  | parts {negative : Bool} {mantissa : ℚ} {exponent : Int} {sign digits power : List Char}
      (hsign : SignText negative sign) (hmantissa : MantissaText mantissa digits)
      (hexponent : ExponentText exponent power) :
      NumeralText negative (mantissa * 10 ^ exponent) (sign ++ (digits ++ power))

/-! ## Reading the parts -/

theorem SignText.splitSign_append {negative : Bool} {sign rest : List Char}
    (hsign : SignText negative sign) (hrest : ∀ c ∈ rest.head?, c ≠ '-' ∧ c ≠ '+') :
    splitSign (sign ++ rest) = (negative, rest) := by
  rcases hsign with _ | _ | _
  · rw [List.nil_append]
    unfold splitSign
    split
    · exact absurd rfl (hrest _ rfl).1
    · exact absurd rfl (hrest _ rfl).2
    · rfl
  · rfl
  · rfl

theorem exists_signText (cs : List Char) :
    ∃ sign, SignText (splitSign cs).1 sign ∧ cs = sign ++ (splitSign cs).2 := by
  unfold splitSign
  split
  · exact ⟨['-'], .minus, rfl⟩
  · exact ⟨['+'], .plus, rfl⟩
  · exact ⟨[], .absent, rfl⟩

theorem IsDigits.head_ne_sign {ds rest : List Char} (hdigits : IsDigits ds) (hne : ds ≠ []) :
    ∀ c ∈ (ds ++ rest).head?, c ≠ '-' ∧ c ≠ '+' := by
  obtain ⟨d, ds, rfl⟩ := List.exists_cons_of_ne_nil hne
  intro c hc
  obtain rfl : d = c := Option.some.inj hc
  have hdigit := hdigits d List.mem_cons_self
  constructor
  · rintro rfl
    exact absurd hdigit (by decide)
  · rintro rfl
    exact absurd hdigit (by decide)

theorem isDigits_nil : IsDigits [] := fun _ hc => absurd hc List.not_mem_nil

theorem isDigits_leadingDigits (cs : List Char) : IsDigits (Text.leadingDigits cs) :=
  fun _ => Text.isDigit_of_mem_leadingDigits

theorem ExponentText.exponent?_eq {exponent : Int} {power : List Char}
    (hexponent : ExponentText exponent power) : exponent? power = some exponent := by
  rcases hexponent with _ | ⟨hletter, hsign, hdigits, hne⟩
  · rfl
  · have hhead := @IsDigits.head_ne_sign _ [] hdigits hne
    rw [List.append_nil] at hhead
    have hsplit := hsign.splitSign_append hhead
    have hall : List.all _ Char.isDigit = true := List.all_eq_true.mpr hdigits
    rcases hletter with rfl | rfl <;> simp [exponent?, hsplit, hne, hall]

theorem exponentText_of_exponent? {exponent : Int} {power : List Char}
    (hsome : exponent? power = some exponent) : ExponentText exponent power := by
  rcases power with _ | ⟨letter, rest⟩
  · obtain rfl := Option.some.inj hsome
    exact .absent
  · simp only [exponent?] at hsome
    obtain ⟨sign, hsign, hrest⟩ := exists_signText rest
    generalize splitSign rest = parts at *
    obtain ⟨negative, ds⟩ := parts
    obtain rfl := hrest
    split at hsome
    · next hform =>
        simp only [Bool.and_eq_true, Bool.or_eq_true, beq_iff_eq, Bool.not_eq_true',
          List.isEmpty_eq_false_iff] at hform
        obtain ⟨⟨hletter, hne⟩, hdigits⟩ := hform
        obtain rfl := Option.some.inj hsome
        exact .present hletter hsign (List.all_eq_true.mp hdigits) hne
    · cases hsome

theorem ExponentText.startsApart {exponent : Int} {power : List Char}
    (hexponent : ExponentText exponent power) : startsApart power := by
  rcases hexponent with _ | ⟨hletter, -, -, -⟩
  · exact startsApart_nil
  · rcases hletter with rfl | rfl <;> simp [Numeral.startsApart]

/-! ## Reading the mantissa -/

theorem splitFraction_point {fraction rest : List Char} (hfraction : IsDigits fraction)
    (hrest : startsApart rest) :
    splitFraction ('.' :: (fraction ++ rest)) = (fraction, rest) := by
  have hparts := leadingDigits_append hfraction fun c hc => (hrest c hc).1
  rw [splitFraction, hparts.1, hparts.2]

/-- Digits around a point, of which one side may be missing, and what follows them. -/
theorem magnitude?_point {whole fraction rest : List Char} (hwhole : IsDigits whole)
    (hfraction : IsDigits fraction) (hne : whole ≠ [] ∨ fraction ≠ [])
    (hrest : startsApart rest) :
    magnitude? (whole ++ '.' :: (fraction ++ rest)) = (exponent? rest).map fun exponent =>
      ⟨Text.digitsValue (whole ++ fraction), exponent - fraction.length⟩ := by
  have hhead : ∀ c ∈ ('.' :: (fraction ++ rest)).head?, c.isDigit = false := by
    intro c hc
    obtain rfl := Option.some.inj hc
    decide
  have hparts := leadingDigits_append hwhole hhead
  have hempty : (whole.isEmpty && fraction.isEmpty) = false := by
    rcases hne with hne | hne <;> simp [hne]
  simp only [magnitude?, hparts.1, hparts.2, splitFraction_point hfraction hrest, hempty,
    Bool.false_eq_true, if_false]

theorem magnitude?_whole {whole rest : List Char} (hne : whole ≠ []) (hwhole : IsDigits whole)
    (hrest : startsApart rest) :
    magnitude? (whole ++ rest) = (exponent? rest).map fun exponent =>
      ⟨Text.digitsValue whole, exponent⟩ := by
  have hparts := magnitude?_parts hne hwhole isDigits_nil hrest
  simpa [fractionText] using hparts

end Numeral

theorem Text.digitsValue_append (ds es : List Char) :
    digitsValue (ds ++ es) = digitsValue ds * 10 ^ es.length + digitsValue es := by
  rw [digitsValue, Nat.ofDigitChars_append, Nat.ofDigitChars_eq_ofDigitChars_zero, Nat.mul_comm,
    digitsValue, digitsValue]

namespace Numeral

/-- The places after the point are taken off the exponent. -/
theorem value_of_point (whole fraction : List Char) (exponent : Int) :
    Decimal.value ⟨Text.digitsValue (whole ++ fraction), exponent - fraction.length⟩ =
      (Text.digitsValue whole + Text.digitsValue fraction / 10 ^ fraction.length) *
        10 ^ exponent := by
  rw [Decimal.value, Text.digitsValue_append, zpow_sub₀ (by norm_num), zpow_natCast]
  push_cast
  field_simp

theorem MantissaText.exists_magnitude? {mantissa : ℚ} {exponent : Int}
    {digits power : List Char} (hmantissa : MantissaText mantissa digits)
    (hexponent : ExponentText exponent power) :
    ∃ d, magnitude? (digits ++ power) = some d ∧ d.value = mantissa * 10 ^ exponent := by
  have hpower := hexponent.exponent?_eq
  have hrest := hexponent.startsApart
  cases hmantissa with
  | whole hdigits hne =>
      refine ⟨⟨Text.digitsValue digits, exponent⟩, ?_, rfl⟩
      rw [magnitude?_whole hne hdigits hrest, hpower, Option.map_some]
  | point hdigits hne hfraction =>
      refine ⟨_, ?_, value_of_point _ _ exponent⟩
      rw [List.append_assoc, List.cons_append,
        magnitude?_point hdigits hfraction (Or.inl hne) hrest, hpower, Option.map_some]
  | @fraction fraction hfraction hne =>
      refine ⟨_, ?_, (value_of_point [] fraction exponent).trans ?_⟩
      · have hread := magnitude?_point isDigits_nil hfraction (Or.inr hne) hrest
        rw [hpower, Option.map_some] at hread
        exact hread
      · have hzero : Text.digitsValue [] = 0 := rfl
        rw [hzero, Nat.cast_zero, zero_add]

/-- Digits on either side of a point are a mantissa. -/
theorem mantissaText_point {whole fraction : List Char} (hwhole : IsDigits whole)
    (hfraction : IsDigits fraction) (hne : whole ≠ [] ∨ fraction ≠ []) :
    MantissaText (Text.digitsValue whole + Text.digitsValue fraction / 10 ^ fraction.length)
      (whole ++ '.' :: fraction) := by
  by_cases hempty : whole = []
  · have hzero : Text.digitsValue [] = 0 := rfl
    rw [hempty, hzero, Nat.cast_zero, zero_add]
    exact .fraction hfraction (hne.resolve_left fun h => h hempty)
  · exact .point hwhole hempty hfraction

theorem splitFraction_cases (cs : List Char) :
    (∃ rest, cs = '.' :: rest ∧
        splitFraction cs = (Text.leadingDigits rest, Text.afterDigits rest)) ∨
      splitFraction cs = ([], cs) := by
  unfold splitFraction
  split
  · next rest => exact Or.inl ⟨rest, rfl, rfl⟩
  · exact Or.inr rfl

/-- A text that is read as a magnitude has a mantissa and an exponent of that value. -/
theorem exists_parts_of_magnitude? {unsigned : List Char} {d : Decimal}
    (hsome : magnitude? unsigned = some d) :
    ∃ mantissa exponent digits power, unsigned = digits ++ power ∧
      MantissaText mantissa digits ∧ ExponentText exponent power ∧
      d.value = mantissa * 10 ^ exponent := by
  have hwhole := isDigits_leadingDigits unsigned
  have hsplit := Text.leadingDigits_append_afterDigits unsigned
  simp only [magnitude?] at hsome
  generalize Text.leadingDigits unsigned = whole at *
  generalize Text.afterDigits unsigned = after at *
  split at hsome
  · cases hsome
  · next hne =>
      rw [Bool.and_eq_true, List.isEmpty_iff, List.isEmpty_iff, not_and_or] at hne
      obtain ⟨exponent, hexponent, rfl⟩ := Option.map_eq_some_iff.mp hsome
      have hpower := exponentText_of_exponent? hexponent
      rcases splitFraction_cases after with ⟨rest, rfl, hfraction⟩ | hfraction
      · rw [hfraction] at hne hpower ⊢
        have hdigits := isDigits_leadingDigits rest
        refine ⟨_, exponent, whole ++ '.' :: Text.leadingDigits rest, Text.afterDigits rest, ?_,
          mantissaText_point hwhole hdigits hne, hpower, value_of_point _ _ _⟩
        rw [List.append_assoc, List.cons_append, Text.leadingDigits_append_afterDigits, hsplit]
      · -- Without a point there are digits before the exponent, or there would be none.
        rw [hfraction] at hne hpower ⊢
        have hne' : whole ≠ [] := hne.resolve_right fun h => h rfl
        refine ⟨_, exponent, whole, after, hsplit.symm, .whole hwhole hne', hpower, ?_⟩
        rw [List.append_nil, List.length_nil, Nat.cast_zero, sub_zero]
        rfl

/-! ## Whole numerals -/

theorem MantissaText.head_ne_sign {mantissa : ℚ} {digits power : List Char}
    (hmantissa : MantissaText mantissa digits) :
    ∀ c ∈ (digits ++ power).head?, c ≠ '-' ∧ c ≠ '+' := by
  cases hmantissa with
  | whole hdigits hne => exact hdigits.head_ne_sign hne
  | point hdigits hne hfraction =>
      rw [List.append_assoc]
      exact hdigits.head_ne_sign hne
  | fraction hfraction hne =>
      intro c hc
      obtain rfl := Option.some.inj hc
      decide

/-- The texts of the grammar are the texts that are read as numerals, with the sign and the value
that are read. -/
theorem numeralText_iff {negative : Bool} {value : ℚ} {cs : List Char} :
    NumeralText negative value cs ↔
      ∃ d, ofChars? cs = some ⟨negative, d⟩ ∧ d.value = value := by
  constructor
  · rintro ⟨hsign, hmantissa, hexponent⟩
    obtain ⟨d, hread, hvalue⟩ := hmantissa.exists_magnitude? hexponent
    refine ⟨d, ?_, hvalue⟩
    rw [ofChars?_eq, hsign.splitSign_append hmantissa.head_ne_sign, hread]
    rfl
  · rintro ⟨d, hsome, rfl⟩
    obtain ⟨sign, hsign, hcs⟩ := exists_signText cs
    rw [ofChars?_eq] at hsome
    obtain ⟨d', hread, heq⟩ := Option.map_eq_some_iff.mp hsome
    obtain ⟨hnegative, rfl⟩ := Numeral.mk.inj heq
    obtain ⟨mantissa, exponent, digits, power, hunsigned, hmantissa, hexponent, hvalue⟩ :=
      exists_parts_of_magnitude? hread
    rw [hnegative] at hsign
    rw [hcs, hunsigned, hvalue]
    exact .parts hsign hmantissa hexponent

end Numeral

end Keypad
