import Keypad.Key
import Keypad.Proofs.NumberText

/-!
# Which texts are key sequences

A text is a key sequence just if each of its characters is blank or stands on a key.  Any other
text is refused with its first character of another kind, wherever the scan for it starts.
-/

namespace Keypad

/-- A digit key types a decimal digit or the decimal point. -/
theorem Digit.isDigit_or_eq_point (d : Digit) : d.char.isDigit = true ∨ d.char = '.' := by
  have hvalid := d.valid
  rwa [isDigitChar, Bool.or_eq_true, beq_iff_eq] at hvalid

namespace Key

/-! ## Characters -/

/-- Whether a character is neither blank nor on a key. -/
def IsUnknown (c : Char) : Prop := Text.isBlank c = false ∧ ofChar? c = none

instance (c : Char) : Decidable (IsUnknown c) :=
  inferInstanceAs (Decidable (_ ∧ _))

theorem not_isBlank_char (key : Key) : Text.isBlank key.char = false := by
  cases key with
  | digit d =>
      obtain hdigit | hpoint := d.isDigit_or_eq_point
      · exact Text.not_isBlank_of_isDigit hdigit
      · rw [char, hpoint]
        decide
  | operator op => cases op <;> decide
  | equals => decide
  | clear => decide

/-- A character on a key is the one that the key prints, but for the capital of the clear key. -/
theorem eq_char_of_ofChar? {c : Char} {key : Key} (hkey : ofChar? c = some key) :
    c = key.char ∨ c = 'C' := by
  unfold ofChar? at hkey
  split at hkey
  · next hequals =>
      cases hkey
      exact Or.inl hequals
  · split at hkey
    · next hclear =>
        cases hkey
        exact hclear
    · split at hkey
      · next op hop =>
          cases hkey
          exact Or.inl (Operator.symbol_of_ofSymbol? hop).symm
      · obtain ⟨d, hd, rfl⟩ := Option.map_eq_some_iff.mp hkey
        exact Or.inl (Digit.char_of_ofChar? hd).symm

theorem isKeyOrBlank_char (key : Key) : isKeyOrBlank key.char = true := by
  cases key with
  | digit d =>
      obtain hdigit | hpoint := d.isDigit_or_eq_point
      · rw [isKeyOrBlank, char, hdigit]
        rfl
      · rw [char, hpoint]
        decide
  | operator op => cases op <;> decide
  | equals => decide
  | clear => decide

/-- The characters of a key sequence are those that are blank or stand on a key. -/
theorem isKeyOrBlank_eq_false_iff {c : Char} : isKeyOrBlank c = false ↔ IsUnknown c := by
  constructor
  · intro hother
    constructor
    · rw [isKeyOrBlank, Bool.or_eq_false_iff, Bool.or_eq_false_iff] at hother
      exact hother.1.2
    · cases hkey : ofChar? c with
      | none => rfl
      | some key =>
          rcases eq_char_of_ofChar? hkey with rfl | rfl
          · rw [isKeyOrBlank_char] at hother
            cases hother
          · exact absurd hother (by decide)
  · rintro ⟨hblank, hkey⟩
    rw [isKeyOrBlank, hblank, Bool.or_false, Bool.or_eq_false_iff]
    constructor
    · cases hdigit : c.isDigit with
      | false => rfl
      | true =>
          have hvalid : isDigitChar c = true := by rw [isDigitChar, hdigit, Bool.true_or]
          have hchar := ofChar?_char (.digit ⟨c, hvalid⟩)
          rw [char, hkey] at hchar
          cases hchar
    · rw [← Bool.not_eq_true, List.contains_iff_mem]
      intro hmem
      simp only [List.mem_cons, List.not_mem_nil, or_false] at hmem
      rcases hmem with rfl | rfl | rfl | rfl | rfl | rfl | rfl | rfl
      all_goals exact absurd hkey (by decide)

/-! ## Texts -/

theorem scan_of_unknown {before after : List Char} {c : Char} (position : Nat)
    (hbefore : ∀ d ∈ before, ¬IsUnknown d) (hc : IsUnknown c) :
    scan position (before ++ c :: after) =
      .error (.unknownKey c (position + before.length)) := by
  induction before generalizing position with
  | nil =>
      rw [List.nil_append, scan, hc.1, if_neg Bool.false_ne_true, hc.2]
      rfl
  | cons d before ih =>
      rw [List.forall_mem_cons] at hbefore
      have hrest := ih (position + 1) hbefore.2
      rw [Nat.add_assoc, Nat.add_comm 1] at hrest
      rw [List.cons_append, scan, hrest, List.length_cons]
      split
      · rfl
      · next hblank =>
          cases hkey : ofChar? d with
          | some key => rfl
          | none => exact absurd ⟨eq_false_of_ne_true hblank, hkey⟩ hbefore.1

/-- A text whose characters are blank or stand on keys is the sequence of these keys. -/
theorem parse_of_not_unknown {text : String} (htext : ∀ c ∈ text.toList, ¬IsUnknown c) :
    parse text = .ok (amongChars text.toList) := by
  rw [parse, if_pos]
  rw [isSequence, List.all_eq_true]
  intro c hc
  rw [← Bool.not_eq_false, isKeyOrBlank_eq_false_iff]
  exact htext c hc

/-- A text is refused for its first character that is neither blank nor on a key. -/
theorem parse_of_unknown {text : String} {before after : List Char} {c : Char}
    (htext : text.toList = before ++ c :: after) (hbefore : ∀ d ∈ before, ¬IsUnknown d)
    (hc : IsUnknown c) : parse text = .error (.unknownKey c before.length) := by
  rw [parse, if_neg, htext, scan_of_unknown 0 hbefore hc, Nat.zero_add]
  rw [isSequence, List.all_eq_true]
  intro hall
  have hmem : c ∈ text.toList := by
    rw [htext]
    exact List.mem_append_right _ List.mem_cons_self
  exact Bool.false_ne_true ((isKeyOrBlank_eq_false_iff.mpr hc).symm.trans (hall c hmem))

/-- A text that is no key sequence has a first character that is neither blank nor on a key. -/
theorem exists_first_unknown {cs : List Char} (hcs : ¬∀ c ∈ cs, ¬IsUnknown c) :
    ∃ before c after, cs = before ++ c :: after ∧ (∀ d ∈ before, ¬IsUnknown d) ∧ IsUnknown c := by
  induction cs with
  | nil => exact absurd (fun c hc => by cases hc) hcs
  | cons d rest ih =>
      by_cases hd : IsUnknown d
      · exact ⟨[], d, rest, rfl, by simp, hd⟩
      · have hrest : ¬∀ c ∈ rest, ¬IsUnknown c := by
          intro hrest
          exact hcs (List.forall_mem_cons.mpr ⟨hd, hrest⟩)
        obtain ⟨before, c, after, rfl, hbefore, hc⟩ := ih hrest
        exact ⟨d :: before, c, after, rfl, List.forall_mem_cons.mpr ⟨hd, hbefore⟩, hc⟩

theorem parse_eq_ok_iff {text : String} {keys : List Key} :
    parse text = .ok keys ↔
      (∀ c ∈ text.toList, ¬IsUnknown c) ∧ keys = amongChars text.toList := by
  constructor
  · intro hparse
    by_cases hall : ∀ c ∈ text.toList, ¬IsUnknown c
    · rw [parse_of_not_unknown hall] at hparse
      exact ⟨hall, (Except.ok.inj hparse).symm⟩
    · obtain ⟨before, c, after, htext, hbefore, hc⟩ := exists_first_unknown hall
      rw [parse_of_unknown htext hbefore hc] at hparse
      cases hparse
  · rintro ⟨hall, rfl⟩
    exact parse_of_not_unknown hall

end Key

end Keypad
