import Keypad.Proofs.Json.Expression
import Keypad.Proofs.Json.Quoted
import Keypad.Proofs.NumberText
import Mathlib.Data.List.Forall2

/-!
# The JSON text of an entry identifies it

A finite number's text is a numeral that is read as this number, so the texts of different numbers
differ.  No token holds a comma or a closing bracket, so the first of these ends the first token of
an array, and token after token is told from the text.  A string reads back.  What the text does not
tell is only which of the numbers that are not finite stood where it has `null`.
-/

namespace Keypad

/-- Whether two tokens have the same text in JSON: the same operator, finite operands of the same
encoding, or any two operands that are not finite. -/
def Token.SameInJson : Token → Token → Prop
  | .operator op, .operator op' => op = op'
  | .operand x, .operand y =>
    (x.isFinite = true ∧ y.isFinite = true ∧ x.toBits = y.toBits) ∨
      (x.isFinite = false ∧ y.isFinite = false)
  | _, _ => False

namespace Json

/-! ## Numbers -/

/-- The text of a decimal is a numeral, of the decimal that it spells. -/
theorem ofChars?_writeDecimal (negative : Bool) (d : Decimal) :
    Numeral.ofChars? (Numeral.signText negative ++ writeDecimal d) =
      some ⟨negative, spelled d⟩ := by
  rcases writeDecimal_cases d with ⟨hexponent, htext, hspelled⟩ | ⟨hneg, htext, hspelled⟩ |
    ⟨htext, hspelled⟩
  · have hne : d.digits ++ Decimal.zeros d.exponent.toNat ≠ [] :=
      List.append_ne_nil_of_left_ne_nil d.digits_ne_nil _
    rw [htext, hspelled, Decimal.positional, if_pos hexponent,
      Numeral.ofChars?_point negative hne (List.cons_ne_nil '0' []) (isDigit_of_mem_whole d)
        (by simp), digitsValue_whole]
    rfl
  · rw [htext, hspelled]
    exact Decimal.ofChars?_positional_of_neg negative hneg
  · rw [htext, hspelled]
    exact Decimal.ofChars?_scientific negative d

theorem writeNumber_finite (negative : Bool) (magnitude : Fin Binary64.finiteCount) :
    writeNumber (.finite negative magnitude) =
      Numeral.signText negative ++ writeMagnitude magnitude := by
  cases negative <;> rfl

theorem writeNumber_of_not_isFinite {x : Binary64} (hfinite : x.isFinite = false) :
    writeNumber x = ['n', 'u', 'l', 'l'] := by
  cases x with
  | nan => rfl
  | infinity negative => rfl
  | finite negative magnitude => cases hfinite

/-- The text of a finite number is a numeral that is read as this number, a zero with its sign. -/
theorem exists_ofChars?_writeNumber {x : Binary64} (hfinite : x.isFinite = true) :
    ∃ n, Numeral.ofChars? (writeNumber x) = some n ∧ n.toBinary64 = x := by
  cases x with
  | nan => cases hfinite
  | infinity negative => cases hfinite
  | finite negative magnitude =>
      have hback := Binary64.ofRank_of_lt negative magnitude.isLt
      rw [writeNumber_finite, writeMagnitude]
      split
      · next hzero =>
          refine ⟨⟨negative, 0, -1⟩, by cases negative <;> rfl, ?_⟩
          rw [← hback, hzero]
          rfl
      · refine ⟨_, ofChars?_writeDecimal negative _, ?_⟩
        rw [Numeral.toBinary64, Decimal.toBinary64_congr negative (value_spelled _),
          Decimal.toBinary64_shortest, hback]

theorem ofChars?_null : Numeral.ofChars? ['n', 'u', 'l', 'l'] = none := rfl

/-- Finite numbers of one text are the same number. -/
theorem eq_of_writeNumber_eq {x y : Binary64} (hfinite : x.isFinite = true)
    (htext : writeNumber x = writeNumber y) : x = y := by
  obtain ⟨n, hn, hx⟩ := exists_ofChars?_writeNumber hfinite
  rw [htext] at hn
  by_cases hfinite' : y.isFinite = true
  · obtain ⟨n', hn', hy⟩ := exists_ofChars?_writeNumber hfinite'
    obtain rfl := Option.some.inj (hn.symm.trans hn')
    exact hx.symm.trans hy
  · rw [writeNumber_of_not_isFinite (Bool.not_eq_true _ ▸ hfinite'), ofChars?_null] at hn
    cases hn

/-! ## Tokens -/

theorem writeToken_operator_ne_operand (op : Operator) (x : Binary64) :
    writeToken (.operator op) ≠ writeToken (.operand x) := by
  intro htext
  obtain ⟨c, cs, hcons, hstart⟩ := exists_cons_writeNumber x
  rw [writeToken, writeToken, hcons, List.cons.injEq] at htext
  rw [← htext.1] at hstart
  revert hstart
  decide

/-- Tokens have the same text just if they are the same to JSON. -/
theorem writeToken_eq_iff (token token' : Token) :
    writeToken token = writeToken token' ↔ token.SameInJson token' := by
  cases token with
  | operator op =>
      cases token' with
      | operator op' =>
          rw [Token.SameInJson]
          cases op <;> cases op' <;> decide
      | operand y => exact iff_of_false (writeToken_operator_ne_operand op y) id
  | operand x =>
      cases token' with
      | operator op' => exact iff_of_false (writeToken_operator_ne_operand op' x).symm id
      | operand y =>
          rw [Token.SameInJson, writeToken, writeToken]
          constructor
          · intro htext
            by_cases hx : x.isFinite = true
            · obtain rfl := eq_of_writeNumber_eq hx htext
              exact Or.inl ⟨hx, hx, rfl⟩
            · have hy : ¬y.isFinite = true := by
                intro hy
                rw [eq_of_writeNumber_eq hy htext.symm] at hy
                exact hx hy
              exact Or.inr ⟨Bool.eq_false_of_not_eq_true hx, Bool.eq_false_of_not_eq_true hy⟩
          · rintro (⟨-, -, hbits⟩ | ⟨hx, hy⟩)
            · rw [← Binary64.ofBits_toBits x, hbits, Binary64.ofBits_toBits]
            · rw [writeNumber_of_not_isFinite hx, writeNumber_of_not_isFinite hy]

/-! ## Arrays -/

/-- Whether a character ends a token of an array. -/
def endsToken (c : Char) : Bool := c == ',' || c == ']'

/-- Whether a text is not empty and goes on to the character that ends a token. -/
def IsTokenText (text : List Char) : Prop := text ≠ [] ∧ ∀ c ∈ text, endsToken c = false

theorem not_endsToken_of_isNumeralChar {c : Char} (hc : Numeral.isNumeralChar c = true) :
    endsToken c = false := by
  rw [endsToken, Bool.or_eq_false_iff, beq_eq_false_iff_ne, beq_eq_false_iff_ne]
  constructor
  · rintro rfl
    revert hc
    decide
  · rintro rfl
    revert hc
    decide

theorem isTokenText_writeToken (token : Token) : IsTokenText (writeToken token) := by
  obtain ⟨c, cs, hcons, -⟩ := exists_cons_writeToken token
  refine ⟨by rw [hcons]; exact List.cons_ne_nil c cs, ?_⟩
  cases token with
  | operator op => cases op <;> simp [writeToken, Operator.symbol, endsToken]
  | operand x =>
      by_cases hfinite : x.isFinite = true
      · obtain ⟨n, hn, -⟩ := exists_ofChars?_writeNumber hfinite
        intro c hc
        exact not_endsToken_of_isNumeralChar (Numeral.isNumeralChar_of_ofChars? hn c hc)
      · rw [writeToken, writeNumber_of_not_isFinite (Bool.eq_false_of_not_eq_true hfinite)]
        simp [endsToken]

/-- The texts behind the first one of an array, with the bracket that closes it. -/
def moreTexts : List (List Char) → List Char
  | [] => [']']
  | text :: texts => ',' :: (text ++ moreTexts texts)

/-- An array of texts, from after the bracket that opens it. -/
def arrayTexts : List (List Char) → List Char
  | [] => [']']
  | text :: texts => text ++ moreTexts texts

theorem writeTokens_eq (e : Expression) : writeTokens e = arrayTexts (e.map writeToken) := by
  induction e using writeTokens.induct with
  | case1 => rfl
  | case2 token => rfl
  | case3 token next rest ih =>
      rw [writeTokens, ih]
      rfl

/-- What ends a token tells where its text ends. -/
theorem takeWhile_tokenText_append {text rest : List Char} (htext : IsTokenText text)
    (hrest : ∃ c ∈ rest.head?, endsToken c = true) :
    (text ++ rest).takeWhile (fun c => !endsToken c) = text := by
  obtain ⟨c, hhead, hends⟩ := hrest
  obtain ⟨more, rfl⟩ := List.head?_eq_some_iff.mp hhead
  have hplain : ∀ c ∈ text, (!endsToken c) = true := by
    intro c hc
    rw [htext.2 c hc]
    rfl
  rw [List.takeWhile_append_of_pos hplain, List.takeWhile_cons, hends]
  exact List.append_nil text

theorem exists_head?_moreTexts (texts : List (List Char)) (rest : List Char) :
    ∃ c ∈ (moreTexts texts ++ rest).head?, endsToken c = true := by
  cases texts with
  | nil => exact ⟨']', rfl, rfl⟩
  | cons text texts => exact ⟨',', rfl, rfl⟩

theorem eq_of_append_moreTexts {text text' : List Char} {texts texts' : List (List Char)}
    {rest rest' : List Char} (htext : IsTokenText text) (htext' : IsTokenText text')
    (heq : text ++ (moreTexts texts ++ rest) = text' ++ (moreTexts texts' ++ rest')) :
    text = text' ∧ moreTexts texts ++ rest = moreTexts texts' ++ rest' := by
  have hsame : text = text' := by
    rw [← takeWhile_tokenText_append htext (exists_head?_moreTexts texts rest), heq,
      takeWhile_tokenText_append htext' (exists_head?_moreTexts texts' rest')]
  rw [hsame] at heq
  exact ⟨hsame, List.append_cancel_left heq⟩

theorem eq_of_moreTexts_eq {texts texts' : List (List Char)} {rest rest' : List Char}
    (htexts : ∀ text ∈ texts, IsTokenText text) (htexts' : ∀ text ∈ texts', IsTokenText text)
    (heq : moreTexts texts ++ rest = moreTexts texts' ++ rest') :
    texts = texts' ∧ rest = rest' := by
  induction texts generalizing texts' with
  | nil =>
      cases texts' with
      | nil => exact ⟨rfl, (List.cons.inj heq).2⟩
      | cons text' texts' => exact absurd (List.cons.inj heq).1 (by decide)
  | cons text texts ih =>
      cases texts' with
      | nil => exact absurd (List.cons.inj heq).1 (by decide)
      | cons text' texts' =>
          rw [List.forall_mem_cons] at htexts htexts'
          rw [moreTexts, moreTexts, List.cons_append, List.cons_append, List.append_assoc,
            List.append_assoc] at heq
          obtain ⟨htext, hmore⟩ :=
            eq_of_append_moreTexts htexts.1 htexts'.1 (List.cons.inj heq).2
          obtain ⟨hrest, hend⟩ := ih htexts.2 htexts'.2 hmore
          exact ⟨by rw [htext, hrest], hend⟩

/-- The text of a token does not start an array that is empty. -/
theorem arrayTexts_cons_ne {text : List Char} (htext : IsTokenText text)
    (texts : List (List Char)) (rest rest' : List Char) :
    arrayTexts (text :: texts) ++ rest ≠ arrayTexts [] ++ rest' := by
  obtain ⟨hne, hplain⟩ := htext
  obtain ⟨c, cs, rfl⟩ := List.exists_cons_of_ne_nil hne
  intro heq
  have hclose := hplain c List.mem_cons_self
  rw [(List.cons.inj heq).1] at hclose
  cases hclose

/-- An array tells its texts, and where it ends. -/
theorem eq_of_arrayTexts_eq {texts texts' : List (List Char)} {rest rest' : List Char}
    (htexts : ∀ text ∈ texts, IsTokenText text) (htexts' : ∀ text ∈ texts', IsTokenText text)
    (heq : arrayTexts texts ++ rest = arrayTexts texts' ++ rest') :
    texts = texts' ∧ rest = rest' := by
  cases texts with
  | nil =>
      cases texts' with
      | nil => exact ⟨rfl, (List.cons.inj heq).2⟩
      | cons text' texts' =>
          exact absurd heq.symm (arrayTexts_cons_ne (htexts' text' List.mem_cons_self) _ _ _)
  | cons text texts =>
      cases texts' with
      | nil => exact absurd heq (arrayTexts_cons_ne (htexts text List.mem_cons_self) _ _ _)
      | cons text' texts' =>
          rw [List.forall_mem_cons] at htexts htexts'
          rw [arrayTexts, arrayTexts, List.append_assoc, List.append_assoc] at heq
          obtain ⟨htext, hmore⟩ := eq_of_append_moreTexts htexts.1 htexts'.1 heq
          obtain ⟨hrest, hend⟩ := eq_of_moreTexts_eq htexts.2 htexts'.2 hmore
          exact ⟨by rw [htext, hrest], hend⟩

/-- The text of an expression tells the texts of its tokens, and where it ends. -/
theorem eq_of_writeExpression_eq {e e' : Expression} {rest rest' : List Char}
    (heq : writeExpression e ++ rest = writeExpression e' ++ rest') :
    e.map writeToken = e'.map writeToken ∧ rest = rest' := by
  have htokens : ∀ e : Expression, ∀ text ∈ e.map writeToken, IsTokenText text := by
    intro e text htext
    obtain ⟨token, -, rfl⟩ := List.mem_map.mp htext
    exact isTokenText_writeToken token
  rw [writeExpression, writeExpression, List.cons_append, List.cons_append, writeTokens_eq,
    writeTokens_eq] at heq
  exact eq_of_arrayTexts_eq (htokens e) (htokens e') (List.cons.inj heq).2

theorem map_writeToken_eq_iff (e e' : Expression) :
    e.map writeToken = e'.map writeToken ↔ List.Forall₂ Token.SameInJson e e' := by
  rw [← List.forall₂_eq_eq_eq, List.forall₂_map_left_iff, List.forall₂_map_right_iff]
  simp only [writeToken_eq_iff]

end Json

/-! ## Entries -/

/-- Entries have the same JSON text just if the same text is pending in both and their expressions
agree token by token, all operands that are not finite being the same. -/
theorem Entry.toJson_eq_iff (entry entry' : Entry) :
    entry.toJson = entry'.toJson ↔
      entry.pending = entry'.pending ∧
        List.Forall₂ Token.SameInJson entry.expression entry'.expression := by
  rw [toJson, toJson, String.ofList_inj, ← Json.map_writeToken_eq_iff]
  unfold Json.writeEntry
  constructor
  · intro heq
    simp only [List.append_assoc] at heq
    obtain ⟨htexts, hrest⟩ := Json.eq_of_writeExpression_eq (List.append_cancel_left heq)
    have hquote := List.append_cancel_right (List.append_cancel_left hrest)
    exact ⟨String.toList_inj.mp (Json.quote_inj.mp hquote), htexts⟩
  · rintro ⟨hpending, htexts⟩
    rw [Json.writeExpression, Json.writeExpression, Json.writeTokens_eq, Json.writeTokens_eq,
      hpending, htexts]

end Keypad
