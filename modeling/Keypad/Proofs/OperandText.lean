import Keypad.Proofs.Decimal.Grammar
import Keypad.Proofs.NumberText

/-!
# What a typed operand means

An operand that is typed is nothing, one of three spellings of an infinity, or a numeral, with
blanks around it or none.  A numeral means the number nearest to its exact value, however long it
is and however large its exponent.  Every other text is not-a-number, and no text of an operand
is.
-/

namespace Keypad

namespace Text

/-- What is left of a text without the blanks at its ends. -/
def TrimsTo (cs trimmed : List Char) : Prop :=
  ∃ before after, cs = before ++ (trimmed ++ after) ∧ (∀ c ∈ before ++ after, isBlank c = true) ∧
    (∀ c ∈ trimmed.head?, isBlank c = false) ∧ ∀ c ∈ trimmed.getLast?, isBlank c = false

theorem not_isBlank_of_head?_dropWhile {cs : List Char} {c : Char}
    (hc : c ∈ (cs.dropWhile isBlank).head?) : isBlank c = false := by
  have hhead := List.head?_dropWhile_not isBlank cs
  rw [hc] at hhead
  exact hhead

theorem exists_trimEnd_append (cs : List Char) :
    ∃ after, cs = trimEnd cs ++ after ∧ ∀ c ∈ after, isBlank c = true := by
  refine ⟨(cs.reverse.takeWhile isBlank).reverse, ?_, ?_⟩
  · rw [trimEnd, ← List.reverse_append, List.takeWhile_append_dropWhile, List.reverse_reverse]
  · intro c hc
    exact List.mem_takeWhile_imp (List.mem_reverse.mp hc)

theorem trimsTo_trim (cs : List Char) : TrimsTo cs (trim cs) := by
  obtain ⟨after, hafter, hblank⟩ := exists_trimEnd_append (trimStart cs)
  refine ⟨cs.takeWhile isBlank, after, ?_, ?_, ?_, ?_⟩
  · rw [trim, ← hafter, trimStart, List.takeWhile_append_dropWhile]
  · exact List.forall_mem_append.mpr ⟨fun c hc => List.mem_takeWhile_imp hc, hblank⟩
  · intro c hc
    apply @not_isBlank_of_head?_dropWhile cs
    have hstart : trimStart cs = trim cs ++ after := hafter
    rw [trimStart] at hstart
    rw [hstart, List.head?_append, hc]
    rfl
  · intro c hc
    rw [trim, trimEnd, List.getLast?_reverse] at hc
    exact not_isBlank_of_head?_dropWhile hc

end Text

namespace Binary64

/-! ## The texts of operands -/

/-- The texts of operands, without the blanks around them. -/
def IsOperandText (cs : List Char) : Prop :=
  cs ∈ spelledTexts ∨ ∃ negative value, Numeral.NumeralText negative value cs

/-- What the text of an operand means, without the blanks around it. -/
inductive Denotes : List Char → Binary64 → Prop
  | empty : Denotes [] (zero false)
  | infinity : Denotes "Infinity".toList (.infinity false)
  | plusInfinity : Denotes "+Infinity".toList (.infinity false)
  | minusInfinity : Denotes "-Infinity".toList (.infinity true)
  | numeral {cs : List Char} {negative : Bool} {value : ℚ} {x : Binary64}
      (hnumeral : Numeral.NumeralText negative value cs)
      (hnearest : IsNearest negative value x) : Denotes cs x

theorem Denotes.ne_nan {cs : List Char} {x : Binary64} (hdenotes : Denotes cs x) : x ≠ .nan := by
  rintro rfl
  cases hdenotes with
  | numeral hnumeral hnearest => exact hnearest

/-- A text that is a numeral once it is trimmed is read as the number nearest to it. -/
theorem ofChars_of_numeralText {cs : List Char} {negative : Bool} {value : ℚ}
    (hnumeral : Numeral.NumeralText negative value (Text.trim cs)) :
    IsNearest negative value (ofChars cs) := by
  obtain ⟨d, hread, rfl⟩ := Numeral.numeralText_iff.mp hnumeral
  have hspelled : Text.trim cs ∉ spelledTexts := by
    intro hmem
    rw [ofChars?_of_spelled _ hmem] at hread
    cases hread
  rw [ofChars_of_not_spelled hspelled, hread]
  exact Decimal.isNearest_toBinary64 negative d

theorem Denotes.ofChars_eq {cs trimmed : List Char} {x : Binary64}
    (htrim : Text.trim cs = trimmed) (hdenotes : Denotes trimmed x) : ofChars cs = x := by
  cases hdenotes with
  | empty =>
      rw [ofChars, htrim]
      rfl
  | infinity =>
      rw [ofChars, htrim]
      rfl
  | plusInfinity =>
      rw [ofChars, htrim]
      rfl
  | minusInfinity =>
      rw [ofChars, htrim]
      rfl
  | numeral hnumeral hnearest =>
      rw [← htrim] at hnumeral
      exact isNearest_unique (ofChars_of_numeralText hnumeral) hnearest

theorem denotes_ofChars {cs : List Char} (htext : IsOperandText (Text.trim cs)) :
    Denotes (Text.trim cs) (ofChars cs) := by
  rcases htext with hspelled | ⟨negative, value, hnumeral⟩
  · have hdenotes : ∃ x, Denotes (Text.trim cs) x := by
      simp only [spelledTexts, List.mem_cons, List.not_mem_nil, or_false] at hspelled
      rcases hspelled with htrim | htrim | htrim | htrim <;> rw [htrim]
      · exact ⟨_, .empty⟩
      · exact ⟨_, .infinity⟩
      · exact ⟨_, .plusInfinity⟩
      · exact ⟨_, .minusInfinity⟩
    obtain ⟨x, hx⟩ := hdenotes
    rwa [hx.ofChars_eq rfl]
  · exact .numeral hnumeral (ofChars_of_numeralText hnumeral)

theorem ofChars_of_not_isOperandText {cs : List Char}
    (htext : ¬IsOperandText (Text.trim cs)) : ofChars cs = .nan := by
  obtain ⟨hspelled, hnumeral⟩ := not_or.mp htext
  rw [ofChars_of_not_spelled hspelled]
  cases hread : Numeral.ofChars? (Text.trim cs) with
  | none => rfl
  | some n =>
      exact absurd ⟨n.negative, _, Numeral.numeralText_iff.mpr ⟨n.magnitude, hread, rfl⟩⟩ hnumeral

/-- A text means a number just if it is the text of an operand, and then the number that the
grammar gives it: for a numeral the one nearest to its exact value. -/
theorem ofText_eq_iff_denotes (text : String) :
    let trimmed := Text.trim text.toList
    Text.TrimsTo text.toList trimmed ∧
      (ofText text = .nan ↔ ¬IsOperandText trimmed) ∧
      ∀ x, Denotes trimmed x ↔ ofText text = x ∧ x ≠ .nan := by
  intro trimmed
  refine ⟨Text.trimsTo_trim _, ?_, ?_⟩
  · constructor
    · intro hnan htext
      exact (denotes_ofChars htext).ne_nan hnan
    · exact ofChars_of_not_isOperandText
  · intro x
    constructor
    · intro hdenotes
      exact ⟨hdenotes.ofChars_eq rfl, hdenotes.ne_nan⟩
    · rintro ⟨rfl, hne⟩
      by_contra hdenotes
      exact hne (ofChars_of_not_isOperandText fun htext => hdenotes (denotes_ofChars htext))

/-- One past `2 ^ 53` lies half-way between two numbers, and the even one is meant. -/
example : ofText " +9007199254740993. " = .ofBits 0x4340000000000000 := by decide +kernel

end Binary64

end Keypad
