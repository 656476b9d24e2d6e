import Keypad.Json.Quoted
import Mathlib.Tactic.SplitIfs

/-!
# Strings read back

Every character is escaped to one that stands for itself or to a sequence behind a backslash, and
the reader takes either for that character.  So a string reads back whatever characters it has, and
what is written of a string tells where it ends.
-/

namespace Keypad

namespace Text

/-- Two digits behind two zeros are read as the number that they write. -/
theorem hexNumber?_hexDigits {value : Nat} (hlt : value < 256) :
    hexNumber? ['0', '0', hexDigit (value / 16), hexDigit (value % 16)] = some value := by
  have hzero : hexValue? '0' = some 0 := rfl
  have hhigh := hexValue?_hexDigit (show value / 16 < 16 by omega)
  have hlow := hexValue?_hexDigit (show value % 16 < 16 by omega)
  have hvalue : 16 * (value / 16) + value % 16 = value := Nat.div_add_mod value 16
  simp [hexNumber?, hzero, hhigh, hlow, hvalue]

end Text

namespace Json

/-! ## Single characters -/

theorem unquote?_short {sign c : Char} (hne : sign ≠ 'u') (hsign : shortEscape? sign = some c)
    (rest : List Char) :
    unquote? ('\\' :: sign :: rest) = (unquote? rest).map fun (cs, rest) => (c :: cs, rest) := by
  rw [unquote?.eq_4 sign rest fun _ _ _ _ _ heq => absurd heq hne, hsign]

theorem unquote?_control {c : Char} (hcontrol : c.toNat < 0x20) (rest : List Char) :
    unquote? ('\\' :: 'u' :: '0' :: '0' :: Text.hexDigit (c.toNat / 16) ::
        Text.hexDigit (c.toNat % 16) :: rest) =
      (unquote? rest).map fun (cs, rest) => (c :: cs, rest) := by
  have hnumber := Text.hexNumber?_hexDigits (show c.toNat < 256 by omega)
  have hhigh : isHighSurrogate c.toNat = false := by
    rw [isHighSurrogate, Bool.and_eq_false_iff, decide_eq_false_iff_not]
    exact Or.inl (by omega)
  have hlow : isLowSurrogate c.toNat = false := by
    rw [isLowSurrogate, Bool.and_eq_false_iff, decide_eq_false_iff_not]
    exact Or.inl (by omega)
  rw [unquote?.eq_3, hnumber]
  simp only [hhigh, hlow, Bool.false_eq_true, if_false, Char.ofNat_toNat]

theorem unquote?_plain {c : Char} (hquote : c ≠ '"') (hbackslash : c ≠ '\\')
    (hcontrol : ¬c.toNat < 0x20) (rest : List Char) :
    unquote? (c :: rest) = (unquote? rest).map fun (cs, rest) => (c :: cs, rest) := by
  rw [unquote?.eq_5 c rest hquote (fun _ _ _ _ _ heq => absurd heq hbackslash)
    (fun _ _ heq => absurd heq hbackslash), if_neg (by simp [hbackslash, Nat.not_lt.mp hcontrol])]

/-- An escaped character at the start of a string is read as that character. -/
theorem unquote?_escape (c : Char) (rest : List Char) :
    unquote? (escape c ++ rest) = (unquote? rest).map fun (cs, rest) => (c :: cs, rest) := by
  rw [escape]
  split_ifs with hquote hbackslash hback hfeed hline hreturn htab hcontrol
  · subst hquote
    exact unquote?_short (by decide) rfl rest
  · subst hbackslash
    exact unquote?_short (by decide) rfl rest
  · subst hback
    exact unquote?_short (by decide) rfl rest
  · subst hfeed
    exact unquote?_short (by decide) rfl rest
  · subst hline
    exact unquote?_short (by decide) rfl rest
  · subst hreturn
    exact unquote?_short (by decide) rfl rest
  · subst htab
    exact unquote?_short (by decide) rfl rest
  · exact unquote?_control hcontrol rest
  · exact unquote?_plain hquote hbackslash hcontrol rest

/-! ## Strings -/

/-- A string reads back, and what follows it is left. -/
theorem unquote?_quoted (cs rest : List Char) :
    unquote? (cs.flatMap escape ++ '"' :: rest) = some (cs, rest) := by
  induction cs with
  | nil => simp [unquote?]
  | cons c cs ih => rw [List.flatMap_cons, List.append_assoc, unquote?_escape, ih, Option.map_some]

/-- Different strings are quoted differently. -/
theorem quote_inj {cs cs' : List Char} : quote cs = quote cs' ↔ cs = cs' := by
  constructor
  · intro hquote
    rw [quote, quote, List.cons.injEq] at hquote
    have hread := unquote?_quoted cs []
    rw [hquote.2, unquote?_quoted] at hread
    exact (congrArg Prod.fst (Option.some.inj hread)).symm
  · exact congrArg quote

end Json

end Keypad
