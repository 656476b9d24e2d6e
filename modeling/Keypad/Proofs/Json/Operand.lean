import Keypad.Proofs.Json.Number
import Keypad.Proofs.Json.Scaling

/-!
# Operands read back

The text of a magnitude spells the shortest decimal, to which the magnitude is the nearest, and what
is rounded in reading it is off from this decimal by at most one part in `2 ^ 52`.  So the magnitude
read is at most two ranks away from the one written.  It is the same one if the digits and the power
of ten are exact.
-/

namespace Keypad.Json

open Binary64 (ofRank absValue units unitExponent finiteCount IsNearestRank)

/-- What the text of a magnitude spells. -/
def spelledMagnitude (rank : Nat) : Decimal := spelled (Decimal.shortest .toEven rank)

/-- What is read where a magnitude was written. -/
def reread? (rank : Nat) : Option Binary64 :=
  if rank = 0 then some (ofRank false 0)
  else scaleByTen (Decimal.toBinary64 false ⟨(spelledMagnitude rank).coefficient, 0⟩)
    (spelledMagnitude rank).exponent

theorem coefficient_spelled_pos {d : Decimal} (hpos : 0 < d.coefficient) :
    0 < (spelled d).coefficient := by
  rw [spelled]
  split
  · exact Nat.mul_pos hpos (by positivity)
  · exact hpos

theorem exponent_spelled (d : Decimal) :
    (spelled d).exponent = -1 ∨ (spelled d).exponent = d.exponent := by
  rw [spelled]
  split
  · exact Or.inl rfl
  · exact Or.inr rfl

/-- The text of a magnitude spells at most seventeen digits, and the magnitude is the nearest to
what it spells. -/
theorem spelledMagnitude_spec {rank : Nat} (hpos : 0 < rank) (hfinite : rank < finiteCount) :
    0 < (spelledMagnitude rank).coefficient ∧ (spelledMagnitude rank).coefficient ≤ 10 ^ 17 ∧
      -324 ≤ (spelledMagnitude rank).exponent ∧ (spelledMagnitude rank).exponent ≤ 308 ∧
      IsNearestRank ((spelledMagnitude rank).value * 2 ^ unitExponent) rank := by
  obtain ⟨hrank, hcoefficient, hseventeen, hlow, hhigh⟩ :=
    Decimal.shortest_bounds .toEven hpos hfinite
  have hexponent := exponent_spelled (Decimal.shortest .toEven rank)
  have hnearest := Decimal.isNearestRank_rank (Decimal.isHuge_eq_false (hrank ▸ hfinite))
  rw [hrank, ← value_spelled] at hnearest
  exact ⟨coefficient_spelled_pos hcoefficient, coefficient_spelled_le hseventeen,
    by rw [spelledMagnitude]; omega, by rw [spelledMagnitude]; omega, hnearest⟩

theorem readMagnitude?_writeMagnitude {rank : Nat} (hfinite : rank < finiteCount)
    {rest : List Char} (hend : EndsNumber rest) :
    readMagnitude? (writeMagnitude rank ++ rest) =
      (reread? rank).map fun number => (number, rest) := by
  rw [writeMagnitude, reread?]
  by_cases hzero : rank = 0
  · rw [if_pos hzero, if_pos hzero]
    have hdigit : ∀ c ∈ ['0'], c.isDigit = true := List.forall_mem_singleton.mpr rfl
    have hparts := @readMagnitude?_parts ['0'] ['0'] rest rest 0 (by decide) (Or.inl rfl)
      hdigit hdigit hend.startsApart (by decide) hend.readExponent?
    have hscaled : scaleByTen (Decimal.toBinary64 false ⟨0, 0⟩) (-1) = some (ofRank false 0) := by
      decide +kernel
    exact hparts.trans (congrArg (Option.map _) hscaled)
  · rw [if_neg hzero, if_neg hzero]
    have hpos := Nat.pos_of_ne_zero hzero
    obtain ⟨-, hseventeen, -⟩ := spelledMagnitude_spec hpos hfinite
    obtain ⟨-, hcoefficient, -⟩ := Decimal.shortest_bounds .toEven hpos hfinite
    exact readMagnitude?_writeDecimal hcoefficient (hseventeen.trans (by decide)) hend

/-- What is read is rounded from a number that is off by at most one part in `2 ^ 52`, so it is at
most two ranks away. -/
theorem exists_reread?_within_two {rank : Nat} (hpos : 0 < rank) (hfinite : rank < finiteCount) :
    ∃ rank', rank ≤ rank' + 2 ∧ rank' ≤ rank + 2 ∧
      (rank' < finiteCount → reread? rank = some (ofRank false rank')) := by
  obtain ⟨hcoefficient, hseventeen, hlow, hhigh, hnearest⟩ := spelledMagnitude_spec hpos hfinite
  obtain ⟨q, rank', herror, hrounded, hscaled⟩ :=
    exists_rank_of_scaleByTen hcoefficient hseventeen hlow hhigh
  have hunits : 2 ^ 52 * |q * 2 ^ unitExponent - (spelledMagnitude rank).value * 2 ^ unitExponent| ≤
      (spelledMagnitude rank).value * 2 ^ unitExponent := by
    rw [← sub_mul, abs_mul, abs_of_pos (show (0 : ℚ) < 2 ^ unitExponent by positivity),
      ← mul_assoc]
    exact mul_le_mul_of_nonneg_right herror (by positivity)
  obtain ⟨hbelow, habove⟩ := Binary64.ranks_of_mul_abs_sub_le hnearest hrounded hunits
  refine ⟨rank', hbelow, habove, ?_⟩
  rw [reread?, if_neg hpos.ne']
  exact hscaled

/-- The magnitudes next to zero and next to the end of the finite ones, read one by one. -/
theorem reread?_edges :
    reread? 0 = some (ofRank false 0) ∧ reread? 1 = some (ofRank false 1) ∧
      reread? 2 = some (ofRank false 2) ∧
      reread? (finiteCount - 2) = some (ofRank false (finiteCount - 1)) ∧
      reread? (finiteCount - 1) = some (ofRank false (finiteCount - 1)) := by
  decide +kernel

/-- What is read where a magnitude was written is at most two ranks away, and zero just if the
magnitude is. -/
theorem exists_reread? {rank : Nat} (hfinite : rank < finiteCount) :
    ∃ rank' < finiteCount, rank ≤ rank' + 2 ∧ rank' ≤ rank + 2 ∧ (rank' = 0 ↔ rank = 0) ∧
      reread? rank = some (ofRank false rank') := by
  obtain ⟨hzero, hone, htwo, hlast', hlast⟩ := reread?_edges
  have hcases : rank = 0 ∨ rank = 1 ∨ rank = 2 ∨ rank = finiteCount - 2 ∨
      rank = finiteCount - 1 ∨ 2 < rank ∧ rank + 2 < finiteCount := by omega
  rcases hcases with rfl | rfl | rfl | hedge | hedge | ⟨hlow, hhigh⟩
  · exact ⟨0, by decide, by omega, by omega, by omega, hzero⟩
  · exact ⟨1, by decide, by omega, by omega, by omega, hone⟩
  · exact ⟨2, by decide, by omega, by omega, by omega, htwo⟩
  · subst hedge
    exact ⟨finiteCount - 1, by decide, by decide, by decide, by decide, hlast'⟩
  · subst hedge
    exact ⟨finiteCount - 1, by decide, by decide, by decide, by decide, hlast⟩
  · obtain ⟨rank', hbelow, habove, hread⟩ :=
      exists_reread?_within_two (show 0 < rank by omega) hfinite
    exact ⟨rank', by omega, hbelow, habove, by omega, hread (by omega)⟩

/-- Two ranks are reached, where the text is `9.270652296817293e-231`. -/
example : reread? 0x102cc924586ac6e7 = some (ofRank false 0x102cc924586ac6e5) := by
  decide +kernel

/-! ## Exact texts -/

/-- Whether a whole number has at most 53 significant bits. -/
def HasFewBits (n : Nat) : Prop :=
  ∃ significant zeros, n = significant * 2 ^ zeros ∧ significant < 2 ^ 53

/-- A whole number with at most 53 significant bits is a magnitude. -/
theorem exists_units_of_hasFewBits {n : Nat} (hpos : 0 < n) (hbits : HasFewBits n) :
    ∃ rank, units rank = n * 2 ^ unitExponent := by
  obtain ⟨significant, zeros, rfl, hfew⟩ := hbits
  have hne : significant ≠ 0 := (Nat.pos_of_mul_pos_right hpos).ne'
  have hlow := Nat.log2_self_le hne
  have hhigh : significant < 2 ^ (significant.log2 + 1) := Nat.lt_log2_self
  generalize significant.log2 = exponent at *
  have hexponent : exponent < 53 :=
    (Nat.pow_lt_pow_iff_right (by decide : 1 < 2)).mp (hlow.trans_lt hfew)
  -- The bits are moved up until they fill a binade.
  obtain ⟨missing, hmissing⟩ := Nat.exists_eq_add_of_le (Nat.le_of_lt_succ hexponent)
  obtain ⟨shift, hshift⟩ : ∃ shift, zeros + unitExponent = missing + shift :=
    ⟨zeros + unitExponent - missing, by rw [unitExponent]; omega⟩
  have hbinade : Binary64.binade ≤ significant * 2 ^ missing := by
    rw [Binary64.binade_eq, hmissing, Nat.pow_add]
    exact Nat.mul_le_mul_right _ hlow
  have hinside : significant * 2 ^ missing ≤ 2 * Binary64.binade := by
    rw [Binary64.binade_eq, hmissing, Nat.pow_add, ← Nat.mul_assoc, Nat.mul_comm 2,
      ← Nat.pow_succ]
    exact Nat.mul_le_mul_right _ hhigh.le
  refine ⟨shift * Binary64.binade + significant * 2 ^ missing, ?_⟩
  rw [Binary64.units_spacings (Or.inr hbinade) hinside, Nat.mul_assoc, Nat.mul_assoc,
    ← Nat.pow_add, ← Nat.pow_add, hshift]

theorem exists_absValue_of_hasFewBits {n : Nat} (hpos : 0 < n) (hle : n ≤ 10 ^ 17)
    (hbits : HasFewBits n) : ∃ rank < finiteCount, absValue rank = n := by
  obtain ⟨rank, hunits⟩ := exists_units_of_hasFewBits hpos hbits
  have hcast : (units rank : ℚ) = n * 2 ^ unitExponent := by
    rw [hunits]
    push_cast
    rfl
  refine ⟨rank, ?_, ?_⟩
  · obtain ⟨digits, -, -, hfinite, hnearest, -⟩ := exists_rank_of_natural hpos hle
    have hself := Binary64.isNearestRank_units rank
    rw [hcast] at hself
    rwa [hnearest.unique hfinite hself]
  · rw [absValue, hcast, mul_div_cancel_right₀ _ (by positivity)]

/-- A magnitude is read back if its text spells digits with at most 53 significant bits and a power
of ten that is exact. -/
theorem reread?_of_hasFewBits {rank : Nat} (hfinite : rank < finiteCount)
    (hbits : HasFewBits (spelledMagnitude rank).coefficient)
    (hexponent : (spelledMagnitude rank).exponent.natAbs ≤ 22) :
    reread? rank = some (ofRank false rank) := by
  by_cases hzero : rank = 0
  · rw [hzero]
    exact reread?_edges.1
  obtain ⟨hcoefficient, hseventeen, -, -, hnearest⟩ :=
    spelledMagnitude_spec (Nat.pos_of_ne_zero hzero) hfinite
  obtain ⟨digits, hdigits, hexact⟩ := exists_absValue_of_hasFewBits hcoefficient hseventeen hbits
  obtain ⟨rank', hnearest', hscaled⟩ := exists_rank_of_exact hdigits hexact hexponent
  have hequal := hnearest.unique hfinite hnearest'
  rw [reread?, if_neg hzero, hscaled (hequal ▸ hfinite), hequal]

/-! ## Operands -/

/-- What is read where an operand was written: nothing for `null`. -/
def rereadOperand? : Binary64 → Option Binary64
  | .finite negative magnitude =>
    (reread? magnitude).map fun number => if negative then -number else number
  | _ => none

/-- The text of a magnitude starts with a digit. -/
theorem exists_cons_writeMagnitude (rank : Nat) :
    ∃ c cs, writeMagnitude rank = c :: cs ∧ c.isDigit = true := by
  have hdigits : ∀ (d : Decimal) (more : List Char), ∃ c cs,
      d.digits ++ more = c :: cs ∧ c.isDigit = true := by
    intro d more
    obtain ⟨c, cs, hcons⟩ := List.exists_cons_of_ne_nil d.digits_ne_nil
    refine ⟨c, cs ++ more, by rw [hcons, List.cons_append], ?_⟩
    apply @Decimal.isDigit_of_mem_digits d
    rw [hcons]
    exact List.mem_cons_self
  rw [writeMagnitude]
  split
  · exact ⟨'0', _, rfl, by decide⟩
  generalize Decimal.shortest .toEven rank = d
  rw [writeDecimal]
  split
  · split
    · next hexponent =>
        rw [Decimal.positional, if_pos hexponent, List.append_assoc]
        exact hdigits d _
    · next hexponent =>
        obtain ⟨whole, fraction, htext, hne, -, hwhole, -⟩ :=
          Decimal.exists_positional (not_le.mp hexponent)
        obtain ⟨c, cs, rfl⟩ := List.exists_cons_of_ne_nil hne
        exact ⟨c, _, htext, hwhole c List.mem_cons_self⟩
  · obtain ⟨c, cs, hcons⟩ := List.exists_cons_of_ne_nil d.digits_ne_nil
    refine ⟨c, _, Decimal.scientific_eq hcons, ?_⟩
    apply @Decimal.isDigit_of_mem_digits d
    rw [hcons]
    exact List.mem_cons_self

theorem readNumber?_of_digit {c : Char} (hdigit : c.isDigit = true) (cs : List Char) :
    readNumber? (c :: cs) = readMagnitude? (c :: cs) := by
  unfold readNumber?
  split
  · next heq =>
      cases heq
      exact absurd hdigit (by decide)
  · rfl

theorem readNumber?_writeNumber (x : Binary64) {rest : List Char} (hend : EndsNumber rest) :
    readNumber? (writeNumber x ++ rest) =
      (rereadOperand? x).map fun number => (number, rest) := by
  cases x with
  | nan => rfl
  | infinity negative => rfl
  | finite negative magnitude =>
      have hmagnitude := readMagnitude?_writeMagnitude magnitude.isLt hend
      obtain ⟨c, cs, hcons, hdigit⟩ := exists_cons_writeMagnitude magnitude
      rw [writeNumber, rereadOperand?]
      by_cases hnegative : negative = true
      · rw [hnegative, if_pos rfl, List.cons_append, readNumber?, hmagnitude, Option.map_map,
          Option.map_map]
        rfl
      · rw [if_neg hnegative, hcons, List.cons_append, readNumber?_of_digit hdigit,
          ← List.cons_append, ← hcons, hmagnitude, Option.map_map, eq_false_of_ne_true hnegative]
        rfl

end Keypad.Json

namespace Keypad.Binary64

/-! ## Operands near each other -/

/-- Whether two finite numbers have the same sign and at most a number of ranks between them. -/
def IsWithinRanks (ranks : Nat) : Binary64 → Binary64 → Prop
  | .finite negative magnitude, .finite negative' magnitude' =>
    negative' = negative ∧ magnitude.val ≤ magnitude'.val + ranks ∧
      magnitude'.val ≤ magnitude.val + ranks
  | _, _ => False

/-- Whether the digits in the JSON text of a number, taken as one whole number, have at most 53
significant bits, and the power of ten behind them is one of those that are exact. -/
def HasExactJson : Binary64 → Prop
  | .finite _ magnitude =>
    Json.HasFewBits (Json.spelledMagnitude magnitude).coefficient ∧
      (Json.spelledMagnitude magnitude).exponent.natAbs ≤ 22
  | _ => False

/-- A number that may be read where an operand was written: at most two ranks away, with the same
sign, zero just if the operand is, and the operand itself if its text is exact. -/
def MayReadBack (x y : Binary64) : Prop :=
  IsWithinRanks 2 x y ∧ y.isZero = x.isZero ∧ (x.HasExactJson → y = x)

theorem exists_rereadOperand? {x : Binary64} (hfinite : x.isFinite = true) :
    ∃ y, Json.rereadOperand? x = some y ∧ MayReadBack x y := by
  cases x with
  | nan => cases hfinite
  | infinity negative => cases hfinite
  | finite negative magnitude =>
      obtain ⟨rank, hlt, hbelow, habove, hzero, hread⟩ := Json.exists_reread? magnitude.isLt
      refine ⟨.finite negative ⟨rank, hlt⟩, ?_, ⟨rfl, hbelow, habove⟩, ?_, ?_⟩
      · rw [Json.rereadOperand?, hread, Option.map_some, ofRank_of_lt false hlt]
        cases negative <;> rfl
      · rw [isZero, isZero, Bool.eq_iff_iff, beq_iff_eq, beq_iff_eq]
        exact hzero
      · rintro ⟨hbits, hexponent⟩
        have hexact := Json.reread?_of_hasFewBits magnitude.isLt hbits hexponent
        rw [hread] at hexact
        have hrank := eq_of_ofRank_eq magnitude.isLt (Option.some.inj hexact)
        exact congrArg (finite negative) (Fin.ext hrank)

/-- The number nearest to one tenth reads back: its text spells one digit and one place. -/
example : HasExactJson (.finite false ⟨0x3FB999999999999A, by decide⟩) :=
  ⟨⟨1, 0, by decide +kernel, by decide⟩, by decide +kernel⟩

theorem rereadOperand?_of_not_isFinite {x : Binary64} (hfinite : x.isFinite = false) :
    Json.rereadOperand? x = none := by
  cases x with
  | nan => rfl
  | infinity negative => rfl
  | finite negative magnitude => cases hfinite

end Keypad.Binary64
