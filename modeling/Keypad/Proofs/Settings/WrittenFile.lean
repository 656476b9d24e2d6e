import Keypad.Proofs.Decimal.Reading
import Keypad.Proofs.Text.Lines
import Keypad.Settings.Toml

/-!
# Settings are read back from their file

Written settings are two lines, each with the name of a field, an equals sign and a value.  Neither
the names nor the values hold blanks, comments or line ends, so each line is read as the field that it
was written for.  A width is written in decimal digits without a zero in front, whose value is the
width again however large it is.  So the file holds the settings, and all that is left of reading is
the check of the width.
-/

namespace Keypad

namespace Toml

/-! ## Values -/

theorem ungroup?_of_isDigit {ds : List Char} (hne : ds ≠ [])
    (hdigits : ∀ c ∈ ds, c.isDigit = true) : ungroup? Char.isDigit ds = some ds := by
  have hunderscore : ¬('_').isDigit = true := by decide
  fun_induction ungroup? Char.isDigit ds with
  | case1 => exact absurd rfl hne
  | case2 => rfl
  | case3 c hc => exact absurd (hdigits c (by simp)) hc
  | case4 c rest => exact absurd (hdigits '_' (by simp)) hunderscore
  | case5 c rest => exact absurd (hdigits '_' (by simp)) hunderscore
  | case6 c rest hrest hgroup hc ih =>
      rw [ih hrest fun d hd => hdigits d (List.mem_cons_of_mem c hd), Option.map_some]
  | case7 c rest hrest hgroup hc => exact absurd (hdigits c (by simp)) hc

/-- A number is read from its decimal digits. -/
theorem decimal?_toDigits (n : Nat) : decimal? (Nat.toDigits 10 n) = some n := by
  have hdigits : ungroup? Char.isDigit (Nat.toDigits 10 n) = some (Nat.toDigits 10 n) :=
    ungroup?_of_isDigit Nat.toDigits_ne_nil fun _ =>
      Nat.isDigit_of_mem_toDigits (by decide) (by decide)
  have hzero : ¬((Nat.toDigits 10 n).head? = some '0' ∧ (Nat.toDigits 10 n).length ≠ 1) := by
    rintro ⟨hhead, hlength⟩
    rcases Nat.eq_zero_or_pos n with rfl | hpos
    · exact hlength rfl
    · exact Decimal.head?_toDigits_ne_zero hpos hhead
  rw [decimal?, hdigits]
  simp [hzero]

theorem unsigned?_of_isDigit {ds : List Char} (hdigits : ∀ c ∈ ds, c.isDigit = true) :
    unsigned? ds =
      (decimal? ds).bind fun n => if n < UInt64.size then some (.ofNat n) else none := by
  unfold unsigned?
  split
  · exact absurd (hdigits 'x' (by simp)) (by decide)
  · exact absurd (hdigits 'o' (by simp)) (by decide)
  · exact absurd (hdigits 'b' (by simp)) (by decide)
  · exact absurd (hdigits '+' (by simp)) (by decide)
  · exact absurd (hdigits '-' (by simp)) (by decide)
  · rfl

/-- A width is read from its decimal digits, also one that has no signed integer. -/
theorem unsigned?_toDigits (width : UInt64) :
    unsigned? (Nat.toDigits 10 width.toNat) = some width := by
  rw [unsigned?_of_isDigit fun _ => Nat.isDigit_of_mem_toDigits (by decide) (by decide),
    decimal?_toDigits, Option.bind_some, if_pos width.toNat_lt_size, UInt64.ofNat_toNat]

def booleanText (value : Bool) : String := if value then "true" else "false"

theorem boolean?_booleanText (value : Bool) : boolean? (booleanText value).toList = some value := by
  cases value <;> decide

/-! ## Lines -/

/-- A line that sets a field. -/
def fieldLine (name value : List Char) : List Char := name ++ ' ' :: '=' :: ' ' :: value

/-- Whether a text can stand as a key without quotes. -/
def IsName (name : List Char) : Prop := name ≠ [] ∧ ∀ c ∈ name, isBareKeyChar c = true

/-- The characters that end a value: blanks, the start of a comment and line ends. -/
def valueEnds : List Char := [' ', '\t', '#', '\n', '\r']

/-- Whether a text goes on to its end when it is read as a value. -/
def IsPlain (value : List Char) : Prop := ∀ c ∈ value, c ∉ valueEnds

theorem not_mem_of_all_not {cs : List Char} {p : Char → Bool} (hall : cs.all (!p ·) = true)
    {c : Char} (hc : p c = true) : c ∉ cs := by
  intro hmem
  have hother := List.all_eq_true.mp hall c hmem
  rw [hc] at hother
  cases hother

theorem isBlank_of_not_mem {c : Char} (hc : c ∉ valueEnds) : isBlank c = false := by
  have hall : ∀ d, isBlank d = true → d ∈ valueEnds := by
    intro d hd
    rw [isBlank, Bool.or_eq_true, beq_iff_eq, beq_iff_eq] at hd
    rcases hd with rfl | rfl <;> decide
  exact eq_false_of_ne_true fun hblank => hc (hall c hblank)

theorem not_mem_of_isBareKeyChar {c : Char} (hc : isBareKeyChar c = true) :
    c ∉ valueEnds ∧ c ≠ '"' ∧ c ≠ '\'' := by
  have hall : ('"' :: '\'' :: valueEnds).all (!isBareKeyChar ·) = true := by decide
  have hmem : c ∉ '"' :: '\'' :: valueEnds := not_mem_of_all_not hall hc
  rw [List.mem_cons, List.mem_cons, not_or, not_or] at hmem
  exact ⟨hmem.2.2, hmem.1, hmem.2.1⟩

theorem isPlain_of_isDigit {ds : List Char} (hdigits : ∀ c ∈ ds, c.isDigit = true) :
    IsPlain ds := by
  have hall : valueEnds.all (!Char.isDigit ·) = true := by decide
  intro c hc
  exact not_mem_of_all_not hall (hdigits c hc)

theorem skipBlanks_cons {c : Char} (hc : c ∉ valueEnds) (rest : List Char) :
    skipBlanks (c :: rest) = c :: rest := by
  rw [skipBlanks, List.dropWhile_cons_of_neg]
  rw [isBlank_of_not_mem hc]
  exact Bool.false_ne_true

theorem skipBlanks_of_isPlain {value : List Char} (hvalue : IsPlain value) :
    skipBlanks value = value := by
  cases value with
  | nil => rfl
  | cons c rest => exact skipBlanks_cons (hvalue c List.mem_cons_self) rest

theorem key?_name {name : List Char} (hname : IsName name) (rest : List Char) :
    key? (name ++ ' ' :: rest) = some (name, ' ' :: rest) := by
  obtain ⟨hne, hbare⟩ := hname
  have hspace : ¬isBareKeyChar ' ' = true := by decide
  obtain ⟨c, more, rfl⟩ := List.exists_cons_of_ne_nil hne
  obtain ⟨-, hquote, happostrophe⟩ := not_mem_of_isBareKeyChar (hbare c List.mem_cons_self)
  rw [key?, List.takeWhile_append_of_pos hbare, List.dropWhile_append_of_pos hbare,
    List.takeWhile_cons_of_neg hspace, List.dropWhile_cons_of_neg hspace, List.append_nil]
  · intro text htext
    exact hquote (List.cons.inj htext).1
  · intro text htext
    exact happostrophe (List.cons.inj htext).1

theorem skipBlanks_fieldLine {name : List Char} (hname : IsName name) (value : List Char) :
    skipBlanks (fieldLine name value) = fieldLine name value := by
  obtain ⟨c, more, rfl⟩ := List.exists_cons_of_ne_nil hname.1
  exact skipBlanks_cons (not_mem_of_isBareKeyChar (hname.2 c List.mem_cons_self)).1 _

theorem isEmptyOrComment_fieldLine {name : List Char} (hname : IsName name) (value : List Char) :
    isEmptyOrComment (fieldLine name value) = false := by
  rw [isEmptyOrComment, skipBlanks_fieldLine hname, fieldLine]
  obtain ⟨c, more, rfl⟩ := List.exists_cons_of_ne_nil hname.1
  obtain ⟨hends, -⟩ := not_mem_of_isBareKeyChar (hname.2 c List.mem_cons_self)
  rw [List.cons_append]
  split
  · next hempty => cases hempty
  · next hstart =>
      rw [(List.cons.inj hstart).1] at hends
      exact absurd (by decide) hends
  · rfl

theorem takeWhile_of_isPlain {value : List Char} (hvalue : IsPlain value) :
    value.takeWhile (fun c => !(isBlank c || c == '#')) = value ∧
      value.dropWhile (fun c => !(isBlank c || c == '#')) = [] := by
  have hgoes : ∀ c ∈ value, (!(isBlank c || c == '#')) = true := by
    intro c hc
    have hcomment : c ≠ '#' := by
      rintro rfl
      exact hvalue '#' hc (by decide)
    rw [isBlank_of_not_mem (hvalue c hc), beq_eq_false_iff_ne.mpr hcomment]
    rfl
  exact ⟨List.takeWhile_eq_self_iff.mpr hgoes, List.dropWhile_eq_nil_iff.mpr hgoes⟩

/-- A line that sets a field is read as the field. -/
theorem field?_fieldLine {name value : List Char} (hname : IsName name) (hvalue : IsPlain value) :
    field? (fieldLine name value) = some (name, value) := by
  obtain ⟨htake, hdrop⟩ := takeWhile_of_isPlain hvalue
  have hkey :
      key? (skipBlanks (fieldLine name value)) = some (name, ' ' :: '=' :: ' ' :: value) := by
    rw [skipBlanks_fieldLine hname, fieldLine, key?_name hname]
  have hequals : skipBlanks (' ' :: '=' :: ' ' :: value) = '=' :: ' ' :: value := rfl
  have hspace : skipBlanks (' ' :: value) = value := skipBlanks_of_isPlain hvalue
  have hempty : isEmptyOrComment [] = true := rfl
  simp only [field?, hkey, Option.bind_eq_bind, Option.bind_some, hequals, hspace, htake, hdrop,
    hempty, if_true]

theorem not_mem_fieldLine {name value : List Char} (hname : IsName name) (hvalue : IsPlain value)
    {c : Char} (hend : c = '\n' ∨ c = '\r') : c ∉ fieldLine name value := by
  have hends : c ∈ valueEnds ∧ c ∉ [' ', '=', ' '] := by
    rcases hend with rfl | rfl <;> decide
  have hsplit : fieldLine name value = name ++ ([' ', '=', ' '] ++ value) := rfl
  rw [hsplit, List.mem_append, List.mem_append]
  rintro (hc | hc | hc)
  · exact (not_mem_of_isBareKeyChar (hname.2 c hc)).1 hends.1
  · exact hends.2 hc
  · exact hvalue c hc hends.1

/-- The line of a field is split off the lines behind it. -/
theorem lines_fieldLine {name value : List Char} (hname : IsName name) (hvalue : IsPlain value)
    (rest : List Char) :
    Text.lines (fieldLine name value ++ '\n' :: rest) =
      fieldLine name value :: Text.lines rest := by
  apply Text.splitLines_line
  · exact List.append_ne_nil_of_left_ne_nil hname.1 _
  · exact not_mem_fieldLine hname hvalue (Or.inl rfl)
  · exact not_mem_fieldLine hname hvalue (Or.inr rfl)

end Toml

namespace Settings

open Toml

/-! ## The two fields -/

theorem isName_strictName : IsName strictName.toList :=
  ⟨by decide, List.all_eq_true.mp (by decide)⟩

theorem isName_widthName : IsName widthName.toList :=
  ⟨by decide, List.all_eq_true.mp (by decide)⟩

theorem isPlain_booleanText (value : Bool) : IsPlain (booleanText value).toList := by
  have hall : (booleanText value).toList.all (!valueEnds.contains ·) = true := by
    cases value <;> decide
  intro c hc hmem
  exact not_mem_of_all_not hall (List.contains_iff_mem.mpr hmem) hc

theorem isPlain_toDigits (n : Nat) : IsPlain (Nat.toDigits 10 n) :=
  isPlain_of_isDigit fun _ => Nat.isDigit_of_mem_toDigits (by decide) (by decide)

theorem readLine?_strict {fields : Fields} (hnone : fields.strict = none) (value : Bool) :
    fields.readLine? (fieldLine strictName.toList (booleanText value).toList) =
      some { fields with strict := some value } := by
  have hempty := isEmptyOrComment_fieldLine isName_strictName (booleanText value).toList
  have hfield := field?_fieldLine isName_strictName (isPlain_booleanText value)
  simp [Fields.readLine?, hempty, hfield, hnone, boolean?_booleanText]

theorem readLine?_width {fields : Fields} (hnone : fields.width = none) (width : UInt64) :
    fields.readLine? (fieldLine widthName.toList (Nat.toDigits 10 width.toNat)) =
      some { fields with width := some width } := by
  have hempty := isEmptyOrComment_fieldLine isName_widthName (Nat.toDigits 10 width.toNat)
  have hfield := field?_fieldLine isName_widthName (isPlain_toDigits width.toNat)
  have hname : widthName.toList ≠ strictName.toList := by decide
  simp [Fields.readLine?, hempty, hfield, hnone, hname, unsigned?_toDigits]

/-! ## The file -/

theorem toList_toToml (settings : Settings) :
    settings.toToml.toList =
      fieldLine strictName.toList (booleanText settings.strict).toList ++ '\n' ::
        (fieldLine widthName.toList (Nat.toDigits 10 settings.width.toNat) ++ ['\n']) := by
  have hequals : " = ".toList = [' ', '=', ' '] := by decide
  have hfeed : "\n".toList = ['\n'] := by decide
  simp [toToml, booleanText, fieldLine, hequals, hfeed]

theorem toList_toToml_ne_byteOrderMark (settings : Settings) (rest : List Char) :
    settings.toToml.toList ≠ '\uFEFF' :: rest := by
  intro hmark
  obtain ⟨c, more, hname⟩ := List.exists_cons_of_ne_nil isName_strictName.1
  have hbare := isName_strictName.2 c (by rw [hname]; exact List.mem_cons_self)
  rw [toList_toToml, fieldLine, hname] at hmark
  rw [(List.cons.inj hmark).1] at hbare
  exact absurd hbare (by decide)

/-- The file of any settings holds them as its fields. -/
theorem read?_toToml (settings : Settings) :
    Fields.read? settings.toToml.toList = some ⟨some settings.strict, some settings.width⟩ := by
  have hlines : Text.lines settings.toToml.toList =
      [fieldLine strictName.toList (booleanText settings.strict).toList,
        fieldLine widthName.toList (Nat.toDigits 10 settings.width.toNat)] := by
    rw [toList_toToml, lines_fieldLine isName_strictName (isPlain_booleanText _),
      lines_fieldLine isName_widthName (isPlain_toDigits _)]
    rfl
  have hstrict : Fields.readLine? {} _ = some { strict := some settings.strict } :=
    readLine?_strict rfl settings.strict
  have hwidth : Fields.readLine? { strict := some settings.strict } _ =
      some ⟨some settings.strict, some settings.width⟩ :=
    readLine?_width rfl settings.width
  rw [Fields.read?, hlines]
  · simp only [List.foldlM_cons, List.foldlM_nil, Option.bind_eq_bind, hstrict, Option.bind_some,
      hwidth, Option.pure_def]
  · exact settings.toList_toToml_ne_byteOrderMark

theorem ofToml_toToml (settings : Settings) : ofToml settings.toToml = settings.validate := by
  rw [ofToml_of_fields (read?_toToml settings)]
  rfl

theorem message_narrowScreen (width : UInt64) :
    (SettingsError.narrowScreen width).message =
      "display_width must be at least 9, got " ++ width.toNat.repr := by
  have hminimum : "display_width must be at least " ++ minimumWidth.repr ++ ", got " =
      "display_width must be at least 9, got " := by decide +kernel
  exact congrArg (· ++ width.toNat.repr) hminimum

/-- Settings are read back from their own file exactly if they are valid.  Those with a narrower
screen are refused for its width. -/
theorem written_settings_read_back (settings : Settings) :
    (9 ≤ settings.width.toNat → ofToml settings.toToml = .ok settings) ∧
      (settings.width.toNat < 9 →
        ofToml settings.toToml = .error (.narrowScreen settings.width) ∧
          (SettingsError.narrowScreen settings.width).message =
            "display_width must be at least 9, got " ++ settings.width.toNat.repr) ∧
      (ofToml settings.toToml = .ok settings ↔ settings.validate = .ok settings) := by
  rw [ofToml_toToml]
  refine ⟨validate_of_le, ?_, Iff.rfl⟩
  intro hnarrow
  exact ⟨validate_of_lt hnarrow, message_narrowScreen settings.width⟩

end Settings

end Keypad
