import Keypad.Json.Entry
import Keypad.Proofs.Json.Operand

/-!
# Expressions read back

A written token starts with a character that is no blank and closes no array, and what follows it
does not carry on a number.  So the tokens of an array are read one by one as they were written: an
operator as itself, an operand as `Json.rereadOperand?` has it.  One operand that is written as
`null` is enough for the whole text to be refused.
-/

namespace Keypad.Json

/-- What is read where a token was written. -/
def rereadToken? : Token → Option Token
  | .operand value => (rereadOperand? value).map .operand
  | .operator op => some (.operator op)

/-! ## Tokens -/

/-- A number starts with a digit, a sign or the first letter of `null`. -/
theorem exists_cons_writeNumber (x : Binary64) :
    ∃ c cs, writeNumber x = c :: cs ∧ (c.isDigit = true ∨ c = '-' ∨ c = 'n') := by
  cases x with
  | nan => exact ⟨'n', _, rfl, Or.inr (Or.inr rfl)⟩
  | infinity negative => exact ⟨'n', _, rfl, Or.inr (Or.inr rfl)⟩
  | finite negative magnitude =>
      obtain ⟨c, cs, hcons, hdigit⟩ := exists_cons_writeMagnitude magnitude
      rw [writeNumber, hcons]
      cases negative with
      | true => exact ⟨'-', _, rfl, Or.inr (Or.inl rfl)⟩
      | false => exact ⟨c, cs, rfl, Or.inl hdigit⟩

theorem exists_cons_writeToken (token : Token) :
    ∃ c cs, writeToken token = c :: cs ∧ isBlank c = false ∧ c ≠ ']' := by
  cases token with
  | operator op => exact ⟨'"', _, rfl, by decide, by decide⟩
  | operand value =>
      obtain ⟨c, cs, hcons, hdigit | rfl | rfl⟩ := exists_cons_writeNumber value
      · refine ⟨c, cs, hcons, ?_, ?_⟩
        · rw [isBlank, Bool.eq_false_iff]
          intro hblank
          simp only [Bool.or_eq_true, beq_iff_eq] at hblank
          rcases hblank with ((rfl | rfl) | rfl) | rfl <;> exact absurd hdigit (by decide)
        · rintro rfl
          exact absurd hdigit (by decide)
      · exact ⟨'-', cs, hcons, by decide, by decide⟩
      · exact ⟨'n', cs, hcons, by decide, by decide⟩

/-- What starts with neither a quote nor a brace is read as a number. -/
theorem readToken?_of_ne {c : Char} (hquote : c ≠ '"') (hbrace : c ≠ '{') (cs : List Char) :
    readToken? (c :: cs) =
      (readNumber? (c :: cs)).map fun (value, rest) => (.operand value, rest) := by
  unfold readToken?
  split
  · next heq => exact absurd (List.cons.inj heq).1 hquote
  · next heq => exact absurd (List.cons.inj heq).1 hbrace
  · cases readNumber? (c :: cs) <;> rfl

theorem readToken?_writeToken (token : Token) {rest : List Char} (hend : EndsNumber rest) :
    readToken? (writeToken token ++ rest) =
      (rereadToken? token).map fun token => (token, rest) := by
  cases token with
  | operator op => cases op <;> rfl
  | operand value =>
      obtain ⟨c, cs, hcons, hstart⟩ := exists_cons_writeNumber value
      have hquote : c ≠ '"' := by
        rintro rfl
        revert hstart
        decide
      have hbrace : c ≠ '{' := by
        rintro rfl
        revert hstart
        decide
      rw [writeToken, hcons, List.cons_append, readToken?_of_ne hquote hbrace, ← List.cons_append,
        ← hcons, readNumber?_writeNumber value hend, rereadToken?, Option.map_map, Option.map_map]
      rfl

/-! ## Arrays -/

theorem skipBlanks_cons {c : Char} (hblank : isBlank c = false) (cs : List Char) :
    skipBlanks (c :: cs) = c :: cs := by
  rw [skipBlanks, List.dropWhile_cons, hblank, if_neg Bool.false_ne_true]

theorem skipBlanks_writeToken (token : Token) (rest : List Char) :
    skipBlanks (writeToken token ++ rest) = writeToken token ++ rest := by
  obtain ⟨c, cs, hcons, hblank, -⟩ := exists_cons_writeToken token
  rw [hcons, List.cons_append, skipBlanks_cons hblank]

/-- One step for each token is enough to read the tokens of an array. -/
theorem readTokens?_writeTokens {e : Expression} (hne : e ≠ []) {steps : Nat}
    (hsteps : e.length ≤ steps) (rest : List Char) :
    readTokens? steps (writeTokens e ++ rest) =
      (e.mapM rereadToken?).map fun back => (back, rest) := by
  induction e generalizing steps with
  | nil => exact absurd rfl hne
  | cons token e ih =>
      obtain ⟨steps, rfl⟩ := Nat.exists_eq_add_of_le' (Nat.one_le_of_lt hsteps)
      cases e with
      | nil =>
          have hend : EndsNumber (']' :: rest) := by
            simp [EndsNumber]
          rw [writeTokens, List.append_assoc, readTokens?, skipBlanks_writeToken,
            List.singleton_append, readToken?_writeToken token hend, List.mapM_cons]
          cases rereadToken? token <;> rfl
      | cons next e =>
          -- The comma ends a number before it, and the rest of the array stands behind it.
          have hend : EndsNumber (',' :: (writeTokens (next :: e) ++ rest)) := by
            simp [EndsNumber]
          have hrest := ih (List.cons_ne_nil next e) (Nat.le_of_succ_le_succ hsteps)
          rw [writeTokens, List.append_assoc, readTokens?, skipBlanks_writeToken,
            List.cons_append, readToken?_writeToken token hend, List.mapM_cons]
          cases rereadToken? token with
          | none => rfl
          | some back =>
              simp only [Option.map_some, Option.bind_eq_bind, Option.bind_some,
                skipBlanks_cons (show isBlank ',' = false from rfl), hrest]
              cases (next :: e).mapM rereadToken? <;> rfl

theorem length_le_length_writeTokens (e : Expression) : e.length ≤ (writeTokens e).length := by
  induction e with
  | nil => exact Nat.zero_le _
  | cons token e ih =>
      cases e with
      | nil => simp [writeTokens]
      | cons next e =>
          rw [writeTokens, List.length_append, List.length_cons, List.length_cons]
          exact Nat.le_add_left_of_le (Nat.succ_le_succ ih)

/-- The first token of an array stands right behind the bracket that opens it. -/
theorem exists_writeTokens_cons (token : Token) (e : Expression) :
    ∃ more, writeTokens (token :: e) = writeToken token ++ more := by
  cases e with
  | nil => exact ⟨_, rfl⟩
  | cons next e => exact ⟨_, rfl⟩

theorem readArray?_writeExpression (e : Expression) :
    readArray? (writeExpression e) = (e.mapM rereadToken?).map fun back => (back, []) := by
  cases e with
  | nil => rfl
  | cons token e =>
      have hread := readTokens?_writeTokens (List.cons_ne_nil token e)
        (length_le_length_writeTokens (token :: e)) []
      rw [List.append_nil] at hread
      rw [← hread]
      obtain ⟨more, hmore⟩ := exists_writeTokens_cons token e
      obtain ⟨c, cs, hcons, hblank, hclose⟩ := exists_cons_writeToken token
      have htext : writeTokens (token :: e) = c :: (cs ++ more) := by
        rw [hmore, hcons, List.cons_append]
      have hopen : skip? ['['] (writeExpression (token :: e)) = some (c :: (cs ++ more)) := by
        rw [writeExpression, htext]
        rfl
      rw [readArray?, hopen, htext, Option.bind_eq_bind, Option.bind_some, skipBlanks_cons hblank]
      split
      · next heq => exact absurd (List.cons.inj heq).1 hclose
      · rfl

end Keypad.Json

namespace Keypad

/-- A token that may be read where a token was written: the operator itself, or an operand near the
one written. -/
def Token.MayReadBack : Token → Token → Prop
  | .operator op, .operator op' => op' = op
  | .operand x, .operand y => x.MayReadBack y
  | _, _ => False

namespace Expression

theorem ofJson?_writeExpression (e : Expression) :
    ofJson? (.ofList (Json.writeExpression e)) = e.mapM Json.rereadToken? := by
  rw [ofJson?, String.toList_ofList, Json.readExpression?, Json.readArray?_writeExpression]
  cases e.mapM Json.rereadToken? <;> rfl

theorem exists_mapM_rereadToken? {e : Expression}
    (hfinite : ∀ x, .operand x ∈ e → x.isFinite = true) :
    ∃ back, e.mapM Json.rereadToken? = some back ∧ List.Forall₂ Token.MayReadBack e back := by
  induction e with
  | nil => exact ⟨[], rfl, List.Forall₂.nil⟩
  | cons token e ih =>
      obtain ⟨back, hback, hnear⟩ := ih fun x hx => hfinite x (List.mem_cons_of_mem token hx)
      have htoken : ∃ first, Json.rereadToken? token = some first ∧ token.MayReadBack first := by
        cases token with
        | operator op => exact ⟨.operator op, rfl, rfl⟩
        | operand x =>
            obtain ⟨y, hy, hxy⟩ :=
              Binary64.exists_rereadOperand? (hfinite x List.mem_cons_self)
            exact ⟨.operand y, by rw [Json.rereadToken?, hy, Option.map_some], hxy⟩
      obtain ⟨first, hfirst, hclose⟩ := htoken
      refine ⟨first :: back, ?_, List.Forall₂.cons hclose hnear⟩
      rw [List.mapM_cons, hfirst, hback]
      rfl

theorem mapM_rereadToken?_of_not_isFinite {e : Expression} {x : Binary64} (hx : .operand x ∈ e)
    (hfinite : x.isFinite = false) : e.mapM Json.rereadToken? = none := by
  induction e with
  | nil => cases hx
  | cons token e ih =>
      rw [List.mapM_cons]
      rcases List.mem_cons.mp hx with rfl | hmem
      · rw [Json.rereadToken?, Binary64.rereadOperand?_of_not_isFinite hfinite]
        rfl
      · rw [ih hmem]
        cases Json.rereadToken? token <;> rfl

/-- A written expression whose operands are all finite reads back as one of the same length, token
for token: each operator is the one written, and each operand is at most two ranks away from the one
written, with its sign, and is that operand if the text of it is exact.  One operand that is not
finite makes the reading fail. -/
theorem reading_of_writeExpression (e : Expression) :
    ((∀ x, .operand x ∈ e → x.isFinite = true) →
        ∃ back, ofJson? (.ofList (Json.writeExpression e)) = some back ∧
          List.Forall₂ Token.MayReadBack e back) ∧
      ((∃ x, .operand x ∈ e ∧ x.isFinite = false) →
        ofJson? (.ofList (Json.writeExpression e)) = none) := by
  rw [ofJson?_writeExpression]
  constructor
  · exact exists_mapM_rereadToken?
  · rintro ⟨x, hx, hfinite⟩
    exact mapM_rereadToken?_of_not_isFinite hx hfinite

/-- The digits of `1801439850948199.0` have 54 significant bits.  They are rounded before they are
divided by ten, and the number read is the one after the number written. -/
theorem reading_of_writeExpression_next_rank :
    (Binary64.ofRank false 0x431999999999999C).isFinite = true ∧
      Json.writeExpression [.operand (Binary64.ofRank false 0x431999999999999C)] =
        "[1801439850948199.0]".toList ∧
      ofJson? (.ofList
          (Json.writeExpression [.operand (Binary64.ofRank false 0x431999999999999C)])) =
        some [.operand (Binary64.ofRank false 0x431999999999999D)] ∧
      ofJson? (.ofList
          (Json.writeExpression [.operand (Binary64.ofRank false 0x431999999999999C)])) ≠
        some [.operand (Binary64.ofRank false 0x431999999999999C)] := by
  have hread : ofJson? (.ofList
      (Json.writeExpression [.operand (Binary64.ofRank false 0x431999999999999C)])) =
      some [.operand (Binary64.ofRank false 0x431999999999999D)] := by
    decide +kernel
  refine ⟨by decide, by decide +kernel, hread, ?_⟩
  rw [hread]
  decide

end Expression

end Keypad
