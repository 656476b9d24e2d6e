import Keypad.Proofs.Key
import Mathlib.Data.List.Forall2

/-!
# How key sequences are read

The alphabet of key sequences is given three times: by the test for a key sequence, by what counts
as blank, and by the characters that stand on the keys.  All three agree on every character, since
a character has a key exactly if it is on the keypad.  So the test decides whether a text can be
read, and reading it character by character gives the same keys as taking those that it holds.
-/

namespace Keypad.Key

/-! ## Characters on the keypad -/

/-- The characters on the keypad. -/
def keypadChars : List Char :=
  ['0', '1', '2', '3', '4', '5', '6', '7', '8', '9', '.', '+', '-', '*', '/', '=', 'c', 'C']

/-- Which key a character labels.  Both cases label the clear key. -/
inductive Labels : Char → Key → Prop
  | digit (d : Digit) : Labels d.char (.digit d)
  | operator (op : Operator) : Labels op.symbol (.operator op)
  | equals : Labels '=' .equals
  | clear : Labels 'c' .clear
  | capitalClear : Labels 'C' .clear

/-- A character has the key that it labels. -/
theorem ofChar?_eq_some_iff {c : Char} {key : Key} : ofChar? c = some key ↔ Labels c key := by
  constructor
  · intro hkey
    rcases eq_char_of_ofChar? hkey with rfl | rfl
    · cases key with
      | digit d => exact .digit d
      | operator op => exact .operator op
      | equals => exact .equals
      | clear => exact .clear
    · have hclear : key = .clear := (Option.some.inj hkey).symm
      subst hclear
      exact .capitalClear
  · intro hlabels
    cases hlabels with
    | digit d => exact ofChar?_char (.digit d)
    | operator op => exact ofChar?_char (.operator op)
    | equals => rfl
    | clear => rfl
    | capitalClear => rfl

theorem Labels.not_isBlank {c : Char} {key : Key} (hlabels : Labels c key) :
    Text.isBlank c = false := by
  rcases eq_char_of_ofChar? (ofChar?_eq_some_iff.mpr hlabels) with rfl | rfl
  · exact key.not_isBlank_char
  · decide

theorem mem_keypadChars_of_isDigit {c : Char} (hdigit : c.isDigit = true) : c ∈ keypadChars := by
  obtain ⟨hlow, hhigh⟩ := Char.isDigit_iff_toNat.mp hdigit
  have hall : ∀ n < 58, 48 ≤ n → Char.ofNat n ∈ keypadChars := by decide
  have hmem := hall c.toNat (Nat.lt_succ_of_le hhigh) hlow
  rwa [Char.ofNat_toNat] at hmem

theorem Labels.mem_keypadChars {c : Char} {key : Key} (hlabels : Labels c key) :
    c ∈ keypadChars := by
  cases hlabels with
  | digit d =>
      rcases d.isDigit_or_eq_point with hdigit | hpoint
      · exact mem_keypadChars_of_isDigit hdigit
      · rw [hpoint]
        decide
  | operator op => cases op <;> decide
  | equals => decide
  | clear => decide
  | capitalClear => decide

theorem exists_labels_of_mem_keypadChars {c : Char} (hmem : c ∈ keypadChars) :
    ∃ key, Labels c key := by
  have hall : keypadChars.all (fun c => (ofChar? c).isSome) = true := by decide
  obtain ⟨key, hkey⟩ := Option.isSome_iff_exists.mp (List.all_eq_true.mp hall c hmem)
  exact ⟨key, ofChar?_eq_some_iff.mp hkey⟩

/-- A character is unknown exactly if it is neither blank nor on the keypad. -/
theorem isUnknown_iff {c : Char} : IsUnknown c ↔ Text.isBlank c = false ∧ c ∉ keypadChars := by
  constructor
  · rintro ⟨hblank, hkey⟩
    refine ⟨hblank, ?_⟩
    intro hmem
    obtain ⟨key, hlabels⟩ := exists_labels_of_mem_keypadChars hmem
    rw [ofChar?_eq_some_iff.mpr hlabels] at hkey
    cases hkey
  · rintro ⟨hblank, hmem⟩
    refine ⟨hblank, ?_⟩
    rw [Option.eq_none_iff_forall_ne_some]
    intro key hkey
    exact hmem (ofChar?_eq_some_iff.mp hkey).mem_keypadChars

theorem not_isUnknown_iff {c : Char} :
    ¬IsUnknown c ↔ Text.isBlank c = true ∨ c ∈ keypadChars := by
  rw [isUnknown_iff, not_and_or, Bool.not_eq_false, not_not]

theorem isBlank_of_ofChar?_eq_none {c : Char} (hc : ¬IsUnknown c) (hkey : ofChar? c = none) :
    Text.isBlank c = true := by
  by_contra hblank
  exact hc ⟨eq_false_of_ne_true hblank, hkey⟩

/-! ## Texts -/

theorem isSequence_iff {cs : List Char} : isSequence cs = true ↔ ∀ c ∈ cs, ¬IsUnknown c := by
  rw [isSequence, List.all_eq_true]
  apply forall₂_congr
  intro c _
  rw [← isKeyOrBlank_eq_false_iff, Bool.not_eq_false]

/-- Where no character is unknown, the keys are those of the characters that are not blank. -/
theorem forall₂_labels_amongChars {cs : List Char} (hcs : ∀ c ∈ cs, ¬IsUnknown c) :
    List.Forall₂ Labels (cs.filter (!Text.isBlank ·)) (amongChars cs) := by
  induction cs with
  | nil => exact .nil
  | cons c rest ih =>
      obtain ⟨hc, hrest⟩ := List.forall_mem_cons.mp hcs
      cases hkey : ofChar? c with
      | some key =>
          have hlabels := ofChar?_eq_some_iff.mp hkey
          rw [amongChars, List.filterMap_cons_some hkey,
            List.filter_cons_of_pos (by rw [hlabels.not_isBlank]; rfl)]
          exact .cons hlabels (ih hrest)
      | none =>
          have hblank := isBlank_of_ofChar?_eq_none hc hkey
          rw [amongChars, List.filterMap_cons_none hkey,
            List.filter_cons_of_neg (by rw [hblank]; exact Bool.false_ne_true)]
          exact ih hrest

/-- Where no character is unknown, the scan finds the same keys, wherever it starts. -/
theorem scan_of_not_unknown {cs : List Char} (hcs : ∀ c ∈ cs, ¬IsUnknown c) (position : Nat) :
    scan position cs = .ok (amongChars cs) := by
  induction cs generalizing position with
  | nil => rfl
  | cons c rest ih =>
      obtain ⟨hc, hrest⟩ := List.forall_mem_cons.mp hcs
      have hscan := ih hrest (position + 1)
      cases hkey : ofChar? c with
      | some key =>
          have hblank := (ofChar?_eq_some_iff.mp hkey).not_isBlank
          rw [amongChars, List.filterMap_cons_some hkey, scan, hblank, hkey, hscan]
          rfl
      | none =>
          have hblank := isBlank_of_ofChar?_eq_none hc hkey
          rw [amongChars, List.filterMap_cons_none hkey, scan, if_pos hblank]
          exact hscan

/-- A text is read exactly if each of its characters is blank or on the keypad, which is what the
test for a key sequence finds out.  The keys are then those that its other characters label, one
for each, and the scan finds them as well.  Any other text is refused with its first character that
is neither, and the number of characters in front of it. -/
theorem parse_reads_each_character (text : String) :
    (isSequence text.toList = true ↔
        ∀ c ∈ text.toList, Text.isBlank c = true ∨ c ∈ keypadChars) ∧
      (isSequence text.toList = true ↔ ∃ keys, parse text = .ok keys) ∧
      (∀ keys, parse text = .ok keys →
        List.Forall₂ Labels (text.toList.filter (!Text.isBlank ·)) keys ∧
          amongChars text.toList = keys ∧ scan 0 text.toList = .ok keys) ∧
      ∀ e, parse text = .error e → ∃ before c after,
        text.toList = before ++ c :: after ∧
          (∀ d ∈ before, Text.isBlank d = true ∨ d ∈ keypadChars) ∧
          Text.isBlank c = false ∧ c ∉ keypadChars ∧ e = .unknownKey c before.length := by
  refine ⟨?_, ?_, ?_, ?_⟩
  · rw [isSequence_iff]
    simp only [not_isUnknown_iff]
  · rw [isSequence_iff]
    constructor
    · intro htext
      exact ⟨_, parse_of_not_unknown htext⟩
    · rintro ⟨keys, hparse⟩
      exact (parse_eq_ok_iff.mp hparse).1
  · intro keys hparse
    obtain ⟨htext, rfl⟩ := parse_eq_ok_iff.mp hparse
    exact ⟨forall₂_labels_amongChars htext, rfl, scan_of_not_unknown htext 0⟩
  · intro e hparse
    have hunknown : ¬∀ c ∈ text.toList, ¬IsUnknown c := by
      intro htext
      rw [parse_of_not_unknown htext] at hparse
      cases hparse
    obtain ⟨before, c, after, htext, hbefore, hc⟩ := exists_first_unknown hunknown
    rw [parse_of_unknown htext hbefore hc] at hparse
    obtain ⟨hblank, hmem⟩ := isUnknown_iff.mp hc
    refine ⟨before, c, after, htext, ?_, hblank, hmem, (Except.error.inj hparse).symm⟩
    intro d hd
    exact not_isUnknown_iff.mp (hbefore d hd)

end Keypad.Key
