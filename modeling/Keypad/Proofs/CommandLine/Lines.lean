import Keypad.Proofs.CommandLine.Keys
import Mathlib.Tactic.ByContra

/-!
# Keys given line by line

The keys of a line are pressed all or not at all, and a line with a fault ends the reading.  So the
lines in front of the first fault leave behind what their keys do when they are pressed in one go,
with a screen after each line if screens are printed, and nothing of the later lines is seen.
-/

namespace Keypad.CommandLine

/-! ## One line -/

/-- What is wrong with a line, by the message for it: its bytes are no text, or else a character
is neither blank nor on a key, the first of which is named with its place in the line. -/
inductive LineFault (line : List UInt8) : String → Prop
  | notText (hdecode : Text.decodeUtf8? line = none) :
    LineFault line "Failed to read keys from stdin"
  | unknownKey {text : String} {before after : List Char} {c : Char}
      (hdecode : Text.decodeUtf8? line = some text) (htext : text.toList = before ++ c :: after)
      (hbefore : ∀ d ∈ before, ¬Key.IsUnknown d) (hc : Key.IsUnknown c) :
    LineFault line
      ("unrecognised key '" ++ c.toString ++ "' at position " ++ before.length.repr)

def IsSoundLine (line : List UInt8) : Prop := ∀ message, ¬LineFault line message

/-- The keys of a line, as far as it holds any. -/
def keysOfLine (line : List UInt8) : List Key :=
  match Text.decodeUtf8? line with
  | some text => Key.amongChars text.toList
  | none => []

/-- What pressing the keys of a line leaves behind. -/
def lineLog (options : Options) (calculator : Calculator) (keys : List Key) : Log :=
  let log := pressAllLog options.trace calculator keys
  if options.printsScreen then log ++ ⟨[(calculator.pressAll keys).display], []⟩ else log

theorem pressText_of_not_unknown (trace : Bool) (calculator : Calculator) {text : String}
    (htext : ∀ c ∈ text.toList, ¬Key.IsUnknown c) :
    pressText trace calculator text =
      .ok (calculator.pressAll (Key.amongChars text.toList),
        pressAllLog trace calculator (Key.amongChars text.toList)) := by
  rw [pressText, Key.parse_of_not_unknown htext]

theorem pressText_of_unknown (trace : Bool) (calculator : Calculator) {text : String}
    {before after : List Char} {c : Char} (htext : text.toList = before ++ c :: after)
    (hbefore : ∀ d ∈ before, ¬Key.IsUnknown d) (hc : Key.IsUnknown c) :
    pressText trace calculator text = .error (.keys (.unknownKey c before.length)) := by
  rw [pressText, Key.parse_of_unknown htext hbefore hc]

/-- A line with a fault is refused with the message for it. -/
theorem exists_pressLine_of_fault {line : List UInt8} {message : String}
    (hfault : LineFault line message) (options : Options) (calculator : Calculator) :
    ∃ e, e.message = message ∧ pressLine options calculator line = .error e := by
  cases hfault with
  | notText hdecode =>
      refine ⟨.notText, rfl, ?_⟩
      rw [pressLine, hdecode]
  | @unknownKey text before after c hdecode htext hbefore hc =>
      refine ⟨.keys (.unknownKey c before.length), rfl, ?_⟩
      rw [pressLine, hdecode]
      dsimp only
      rw [pressText_of_unknown _ _ htext hbefore hc]

/-- All keys of a line without a fault are pressed. -/
theorem pressLine_of_isSoundLine {line : List UInt8} (hsound : IsSoundLine line)
    (options : Options) (calculator : Calculator) :
    pressLine options calculator line =
      .ok (calculator.pressAll (keysOfLine line),
        lineLog options calculator (keysOfLine line)) := by
  cases hdecode : Text.decodeUtf8? line with
  | none => exact absurd (.notText hdecode) (hsound _)
  | some text =>
      have htext : ∀ c ∈ text.toList, ¬Key.IsUnknown c := by
        by_contra hunknown
        obtain ⟨before, c, after, htext, hbefore, hc⟩ := Key.exists_first_unknown hunknown
        exact hsound _ (.unknownKey hdecode htext hbefore hc)
      rw [pressLine, keysOfLine, hdecode]
      dsimp only
      rw [pressText_of_not_unknown _ _ htext]
      rfl

theorem isSoundLine_of_decodeUtf8? {line : List UInt8} {text : String}
    (hdecode : Text.decodeUtf8? line = some text) (htext : ∀ c ∈ text.toList, ¬Key.IsUnknown c) :
    IsSoundLine line := by
  intro message hfault
  cases hfault with
  | notText hnone =>
      rw [hdecode] at hnone
      cases hnone
  | @unknownKey text' before after c hdecode' htext' hbefore hc =>
      rw [hdecode] at hdecode'
      rw [Option.some.inj hdecode', htext'] at htext
      exact htext c (List.mem_append_right _ List.mem_cons_self) hc

/-! ## Lines in turn -/

/-- What pressing the keys of lines in turn leaves behind. -/
def linesLog (options : Options) (calculator : Calculator) : List (List Key) → Log
  | [] => {}
  | keys :: rest =>
    lineLog options calculator keys ++ linesLog options (calculator.pressAll keys) rest

/-- Lines without a fault are pressed, whatever lines follow. -/
theorem pressLines_append (options : Options) (calculator : Calculator)
    {before : List (List UInt8)} (hbefore : ∀ line ∈ before, IsSoundLine line)
    (later : List (List UInt8)) :
    pressLines options calculator (before ++ later) =
      let rest := pressLines options (calculator.pressAll (before.flatMap keysOfLine)) later
      (rest.1, linesLog options calculator (before.map keysOfLine) ++ rest.2.1, rest.2.2) := by
  induction before generalizing calculator with
  | nil => rfl
  | cons line before ih =>
      rw [List.forall_mem_cons] at hbefore
      rw [List.cons_append, pressLines, pressLine_of_isSoundLine hbefore.1]
      dsimp only
      rw [ih _ hbefore.2, List.map_cons, linesLog, List.flatMap_cons, Calculator.pressAll_append,
        Log.append_assoc]

theorem pressLines_of_isSoundLine (options : Options) (calculator : Calculator)
    {lines : List (List UInt8)} (hlines : ∀ line ∈ lines, IsSoundLine line) :
    pressLines options calculator lines =
      (calculator.pressAll (lines.flatMap keysOfLine),
        linesLog options calculator (lines.map keysOfLine), none) := by
  have happend := pressLines_append options calculator hlines []
  rw [List.append_nil] at happend
  rw [happend, pressLines]
  dsimp only
  rw [Log.append_empty]

/-- Nothing is pressed from the first line with a fault on. -/
theorem exists_pressLines_of_fault (options : Options) (calculator : Calculator)
    {before : List (List UInt8)} (hbefore : ∀ line ∈ before, IsSoundLine line)
    {line : List UInt8} {message : String} (hfault : LineFault line message)
    (later : List (List UInt8)) :
    ∃ e, e.message = message ∧
      pressLines options calculator (before ++ line :: later) =
        (calculator.pressAll (before.flatMap keysOfLine),
          linesLog options calculator (before.map keysOfLine), some e) := by
  obtain ⟨e, hmessage, hline⟩ := exists_pressLine_of_fault hfault options
    (calculator.pressAll (before.flatMap keysOfLine))
  refine ⟨e, hmessage, ?_⟩
  rw [pressLines_append options calculator hbefore, pressLines, hline]
  dsimp only
  rw [Log.append_empty]

/-! ## Lines and keys -/

/-- Without screens after the lines, lines leave behind what their keys do in one go. -/
theorem linesLog_of_not_printsScreen {options : Options} (hscreen : options.printsScreen = false)
    (calculator : Calculator) (lines : List (List Key)) :
    linesLog options calculator lines =
      pressAllLog options.trace calculator lines.flatten := by
  induction lines generalizing calculator with
  | nil => rfl
  | cons keys rest ih =>
      rw [linesLog, ih, List.flatten_cons, pressAllLog_append, lineLog, hscreen,
        if_neg Bool.false_ne_true]

theorem lines_lineLog_of_printsScreen {options : Options} (hscreen : options.printsScreen = true)
    (calculator : Calculator) (keys : List Key) :
    (lineLog options calculator keys).lines = [(calculator.pressAll keys).display] := by
  rw [lineLog, if_pos hscreen, (printsScreen_iff.mp hscreen).1, Log.lines_append,
    lines_pressAllLog_false, List.nil_append]

/-- The warnings of lines are those of their keys in one go. -/
theorem warnings_linesLog (options : Options) (calculator : Calculator)
    (lines : List (List Key)) :
    (linesLog options calculator lines).warnings =
      (pressAllLog options.trace calculator lines.flatten).warnings := by
  induction lines generalizing calculator with
  | nil => rfl
  | cons keys rest ih =>
      have hline : (lineLog options calculator keys).warnings =
          (pressAllLog options.trace calculator keys).warnings := by
        rw [lineLog]
        split
        · exact List.append_nil _
        · rfl
      rw [linesLog, Log.warnings_append, ih, hline, List.flatten_cons, pressAllLog_append,
        Log.warnings_append]

theorem length_lines_linesLog {options : Options} (hscreen : options.printsScreen = true)
    (calculator : Calculator) (lines : List (List Key)) :
    (linesLog options calculator lines).lines.length = lines.length := by
  induction lines generalizing calculator with
  | nil => rfl
  | cons keys rest ih =>
      rw [linesLog, Log.lines_append, lines_lineLog_of_printsScreen hscreen, List.length_append,
        ih, List.length_singleton, List.length_cons, Nat.add_comm]

/-- The screen after a line is the one that the keys of all lines up to it lead to. -/
theorem getElem_lines_linesLog {options : Options} (hscreen : options.printsScreen = true)
    (calculator : Calculator) {lines : List (List Key)} {place : Nat}
    (hplace : place < (linesLog options calculator lines).lines.length) :
    (linesLog options calculator lines).lines[place] =
      (calculator.pressAll (lines.take (place + 1)).flatten).display := by
  induction lines generalizing calculator place with
  | nil => simp [linesLog] at hplace
  | cons keys rest ih =>
      simp only [linesLog, Log.lines_append, lines_lineLog_of_printsScreen hscreen,
        List.singleton_append] at hplace ⊢
      cases place with
      | zero => simp
      | succ place =>
          rw [List.getElem_cons_succ, ih, List.take_succ_cons, List.flatten_cons,
            Calculator.pressAll_append]

end Keypad.CommandLine
