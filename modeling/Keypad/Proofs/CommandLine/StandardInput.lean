import Keypad.Proofs.CommandLine.Arguments
import Keypad.Proofs.CommandLine.Lines
import Keypad.Proofs.Text.Lines

/-!
# Keys on standard input

The lines of a text hold its keys in order, so a run that reads a text from standard input leaves
the state that the run with the text as an argument does, and the same warnings.  If screens are
printed they are printed line by line, each the one that a run on the lines up to it ends with.
A line with a fault ends a run; what the lines in front of it did stays.
-/

namespace Keypad.CommandLine

variable {options : Options} {settings : Settings}

theorem printsScreen_eq (options : Options) :
    options.printsScreen = !(options.trace || options.json) := by
  rw [Options.printsScreen, Bool.not_or]

/-! ## The lines of a text -/

theorem keysOfLine_encodeUtf8 (line : List Char) :
    keysOfLine (Text.encodeUtf8 (.ofList line)) = Key.amongChars line := by
  rw [keysOfLine, Text.decodeUtf8?_encodeUtf8]
  dsimp only
  rw [String.toList_ofList]

/-- The keys of a text are those of its lines. -/
theorem flatMap_amongChars_lines (cs : List Char) :
    (Text.lines cs).flatMap Key.amongChars = Key.amongChars cs :=
  Text.flatMap_filterMap_splitLines (by decide) (by decide) cs

theorem keysOfLine_byteLines (text : String) :
    (Text.byteLines (Text.encodeUtf8 text)).map keysOfLine =
      (Text.lines text.toList).map Key.amongChars := by
  rw [Text.byteLines_encodeUtf8, List.map_map]
  apply List.map_congr_left
  intro line _
  exact keysOfLine_encodeUtf8 line

/-- No line of a text of keys and blanks has a fault. -/
theorem isSoundLine_of_mem_byteLines {text : String}
    (htext : ∀ c ∈ text.toList, ¬Key.IsUnknown c) :
    ∀ line ∈ Text.byteLines (Text.encodeUtf8 text), IsSoundLine line := by
  rw [Text.byteLines_encodeUtf8, List.forall_mem_map]
  intro line hline
  apply isSoundLine_of_decodeUtf8? (Text.decodeUtf8?_encodeUtf8 _)
  rw [String.toList_ofList]
  intro c hc
  exact htext c (Text.mem_of_mem_splitLines hline hc)

theorem pressGiven_of_encodeUtf8 {text : String} (hkeys : options.keys = none)
    (htext : ∀ c ∈ text.toList, ¬Key.IsUnknown c) (calculator : Calculator) :
    pressGiven options (Text.encodeUtf8 text) calculator =
      (calculator.pressAll (Key.amongChars text.toList),
        linesLog options calculator ((Text.lines text.toList).map Key.amongChars), none) := by
  rw [pressGiven, hkeys]
  dsimp only
  rw [pressLines_of_isSoundLine options calculator (isSoundLine_of_mem_byteLines htext),
    List.flatMap_def, keysOfLine_byteLines, ← List.flatMap_def, flatMap_amongChars_lines]

/-- The keys of the first lines of a text are those of the text that ends with them. -/
theorem flatten_take_amongChars_lines (count : Nat) (cs : List Char) :
    (((Text.lines cs).map Key.amongChars).take count).flatten =
      Key.amongChars (Text.takeLines '\n' count cs) := by
  rw [← flatMap_amongChars_lines, List.flatMap_def, Text.lines, Text.lines,
    Text.splitLines_takeLines, List.map_take]

/-! ## Standard input and argument -/

theorem runOptions_of_encodeUtf8 {find : String → FileState} {defaultPath text : String}
    (hsettings : options.settings find defaultPath = .ok settings) (hkeys : options.keys = none)
    (htext : ∀ c ∈ text.toList, ¬Key.IsUnknown c) :
    runOptions ⟨find, defaultPath, Text.encodeUtf8 text⟩ options =
      keysReport options
        (linesLog options { settings } ((Text.lines text.toList).map Key.amongChars))
        (Calculator.pressAll { settings } (Key.amongChars text.toList)) := by
  rw [runOptions_of_settings hsettings]
  exact runCalculator_of_pressGiven (pressGiven_of_encodeUtf8 hkeys htext _)

theorem conclude_of_stdin (hkeys : options.keys = none) (hjson : options.json = false)
    (calculator : Calculator) : options.conclude calculator = [] := by
  rw [Options.conclude, hjson, hkeys]
  rfl

theorem conclude_with_keys (hkeys : options.keys = none) (hscreen : options.printsScreen = false)
    (keys : String) (calculator : Calculator) :
    { options with keys := some keys }.conclude calculator = options.conclude calculator := by
  by_cases hjson : options.json = true
  · rw [conclude_of_json hjson]
    exact @conclude_of_json { options with keys := some keys } hjson calculator
  · rw [Bool.not_eq_true] at hjson
    rw [printsScreen_eq, hjson, Bool.or_false, Bool.not_eq_false'] at hscreen
    rw [conclude_of_stdin hkeys hjson]
    exact @conclude_of_trace { options with keys := some keys } hscreen hjson calculator

/-- Where no screen is printed for a line, lines leave nothing else behind than their keys. -/
theorem keysReport_linesLog (hkeys : options.keys = none) (hscreen : options.printsScreen = false)
    (text : String) (calculator after : Calculator) :
    keysReport options
        (linesLog options calculator ((Text.lines text.toList).map Key.amongChars)) after =
      keysReport { options with keys := some text }
        (pressAllLog options.trace calculator (Key.amongChars text.toList)) after := by
  rw [linesLog_of_not_printsScreen hscreen, ← List.flatMap_def, flatMap_amongChars_lines,
    keysReport, keysReport, conclude_with_keys hkeys hscreen]

theorem isPrinted_linesLog (hkeys : options.keys = none) (hscreen : options.printsScreen = true)
    (lines : List (List Key)) (after : Calculator) :
    IsPrinted (keysReport options (linesLog options { settings } lines) after).stdout
      (linesLog options { settings } lines).lines := by
  apply isPrinted_keysReport
  · rw [conclude_of_stdin hkeys (printsScreen_iff.mp hscreen).2, List.append_nil]
  · intro line hline
    obtain ⟨place, hplace, rfl⟩ := List.mem_iff_getElem.mp hline
    rw [getElem_lines_linesLog hscreen]
    exact feed_not_mem_display settings _

/-- Where screens are printed, the run over a text prints one for each of its lines: the one that
the run with the lines up to it as an argument prints. -/
theorem screens_of_stdin {find : String → FileState} {defaultPath : String}
    (hsettings : options.settings find defaultPath = .ok settings) (hkeys : options.keys = none)
    (hscreen : options.printsScreen = true) {text : String}
    (htext : ∀ c ∈ text.toList, ¬Key.IsUnknown c) (stdin : List UInt8) :
    ∃ screens : List String,
      IsPrinted (runOptions ⟨find, defaultPath, Text.encodeUtf8 text⟩ options).stdout screens ∧
        screens.length = (Text.lines text.toList).length ∧
        ∀ (i : Nat) (hi : i < screens.length),
          let first := runOptions ⟨find, defaultPath, stdin⟩
            { options with keys := some (.ofList (Text.takeLines '\n' (i + 1) text.toList)) }
          first.code = 0 ∧ IsPrinted first.stdout [screens[i]] := by
  rw [runOptions_of_encodeUtf8 hsettings hkeys htext]
  refine ⟨_, isPrinted_linesLog hkeys hscreen _ _, ?_, ?_⟩
  · rw [length_lines_linesLog hscreen, List.length_map]
  · intro i hi first
    have hfirst : ∀ c ∈ (String.ofList (Text.takeLines '\n' (i + 1) text.toList)).toList,
        ¬Key.IsUnknown c := by
      intro c hc
      rw [String.toList_ofList] at hc
      exact htext c ((Text.takeLines_sublist _ _).mem hc)
    have hreport : first = _ :=
      runOptions_of_keys hsettings rfl (Key.parse_of_not_unknown hfirst)
    rw [hreport, getElem_lines_linesLog hscreen, flatten_take_amongChars_lines]
    rw [String.toList_ofList]
    exact ⟨rfl, isPrinted_of_printsScreen rfl hscreen⟩

/-- The text that a run reads from standard input gives the answer that it gives as an argument
behind two dashes, except that the screen is printed for each line if neither the trace nor the
final state is asked for. -/
theorem run_stdin_eq_run_keys {arguments : List String}
    (hrequest : Request.ofArguments arguments = .run options) (hkeys : options.keys = none)
    (hdashes : "--" ∉ arguments) {text : String} (htext : ∀ c ∈ text.toList, ¬Key.IsUnknown c)
    (find : String → FileState) (defaultPath : String) (stdin : List UInt8) :
    let byInput := run ⟨find, defaultPath, Text.encodeUtf8 text⟩ arguments
    let byKeys := fun keys => run ⟨find, defaultPath, stdin⟩ (arguments ++ ["--", keys])
    ((options.trace || options.json) = true → byInput = byKeys text) ∧
      ((options.trace || options.json) = false →
        byInput.code = (byKeys text).code ∧ byInput.error = (byKeys text).error ∧
          byInput.warnings = (byKeys text).warnings ∧
          (byInput.code = 0 → ∃ screens : List String, IsPrinted byInput.stdout screens ∧
            screens.length = (Text.lines text.toList).length ∧
            ∀ (i : Nat) (hi : i < screens.length),
              let first := byKeys (.ofList (Text.takeLines '\n' (i + 1) text.toList))
              first.code = 0 ∧ IsPrinted first.stdout [screens[i]])) := by
  intro byInput byKeys
  have hbyInput : byInput = runOptions ⟨find, defaultPath, Text.encodeUtf8 text⟩ options := by
    rw [show byInput = run _ _ from rfl, run, hrequest]
  have hbyKeys : byKeys = fun keys =>
      runOptions ⟨find, defaultPath, stdin⟩ { options with keys := some keys } := by
    funext keys
    rw [show byKeys keys = run _ _ from rfl, run,
      Request.ofArguments_append_keys hrequest hkeys hdashes]
  rw [hbyInput, hbyKeys]
  dsimp only
  cases hsettings : options.settings find defaultPath with
  | error e =>
      have hinput : runOptions ⟨find, defaultPath, Text.encodeUtf8 text⟩ options = _ :=
        runOptions_of_error hsettings
      have hargument : runOptions ⟨find, defaultPath, stdin⟩
          { options with keys := some text } = _ := runOptions_of_error hsettings
      rw [hinput, hargument]
      refine ⟨fun _ => rfl, fun _ => ⟨rfl, rfl, rfl, ?_⟩⟩
      intro hcode
      cases hcode
  | ok settings =>
      have hinput := runOptions_of_encodeUtf8 hsettings hkeys htext
      have hargument : runOptions ⟨find, defaultPath, stdin⟩
          { options with keys := some text } = _ :=
        runOptions_of_keys hsettings rfl (Key.parse_of_not_unknown htext)
      constructor
      · intro hflags
        have hscreen : options.printsScreen = false := by
          rw [printsScreen_eq, hflags]
          rfl
        rw [hinput, hargument]
        exact keysReport_linesLog hkeys hscreen text _ _
      · intro hflags
        have hscreen : options.printsScreen = true := by
          rw [printsScreen_eq, hflags]
          rfl
        refine ⟨?_, ?_, ?_, fun _ => screens_of_stdin hsettings hkeys hscreen htext stdin⟩
        · rw [hinput, hargument]
          rfl
        · rw [hinput, hargument]
          rfl
        · rw [hinput, hargument, keysReport, keysReport, warnings_linesLog, ← List.flatMap_def,
            flatMap_amongChars_lines]

/-- In strict mode keys of either line may be refused. -/
theorem run_stdin_eq_run_keys_strict :
    let text := "1+\r\n+2\n\n="
    let byInput := run ⟨fun _ => .missing, "calcpad.toml", Text.encodeUtf8 text⟩
    let byKeys := run ⟨fun _ => .missing, "calcpad.toml", []⟩
    byInput ["--strict", "-t"] = byKeys ["--strict", "-t", "--", text] ∧
      (byInput ["--strict"]).warnings = (byKeys ["--strict", "--", text]).warnings ∧
      ((byInput ["--strict"]).code = 0 →
        ∃ screens, IsPrinted (byInput ["--strict"]).stdout screens ∧ screens.length = 4) := by
  intro text byInput byKeys
  have hparse : Key.parse text =
      .ok [.digit ⟨'1', rfl⟩, .operator .add, .operator .add, .digit ⟨'2', rfl⟩, .equals] := by
    decide
  have htext : ∀ c ∈ text.toList, ¬Key.IsUnknown c := (Key.parse_eq_ok_iff.mp hparse).1
  have hstrict : Request.ofArguments ["--strict"] = .run { strict := true } := by decide
  have htraced : Request.ofArguments ["--strict", "-t"] =
      .run { strict := true, trace := true } := by decide
  obtain ⟨-, hwarnings⟩ :=
    run_stdin_eq_run_keys hstrict rfl (by decide) htext (fun _ => .missing) "calcpad.toml" []
  obtain ⟨hequal, -⟩ :=
    run_stdin_eq_run_keys htraced rfl (by decide) htext (fun _ => .missing) "calcpad.toml" []
  obtain ⟨-, -, hwarnings, hscreens⟩ := hwarnings rfl
  refine ⟨hequal rfl, hwarnings, ?_⟩
  intro hcode
  obtain ⟨screens, hprinted, hlength, -⟩ := hscreens hcode
  exact ⟨screens, hprinted, hlength.trans (by decide)⟩

/-! ## Faults -/

theorem pressGiven_of_stdin (hkeys : options.keys = none) (stdin : List UInt8)
    (calculator : Calculator) :
    pressGiven options stdin calculator =
      pressLines options calculator (Text.byteLines stdin) := by
  rw [pressGiven, hkeys]

theorem runOptions_of_isSoundLine {surroundings : Surroundings}
    (hsettings : options.settings surroundings.find surroundings.defaultPath = .ok settings)
    (hkeys : options.keys = none)
    (hlines : ∀ line ∈ Text.byteLines surroundings.stdin, IsSoundLine line) :
    runOptions surroundings options =
      let lines := (Text.byteLines surroundings.stdin).map keysOfLine
      keysReport options (linesLog options { settings } lines)
        (Calculator.pressAll { settings } lines.flatten) := by
  rw [runOptions_of_settings hsettings]
  apply runCalculator_of_pressGiven
  rw [pressGiven_of_stdin hkeys, pressLines_of_isSoundLine options _ hlines, List.flatMap_def]

theorem text_conclude_of_stdin (hkeys : options.keys = none) (calculator : Calculator) :
    Log.text ⟨options.conclude calculator, []⟩ =
      if options.json then calculator.entry.toJson ++ "\n" else "" := by
  rw [Log.text]
  by_cases hjson : options.json = true
  · rw [conclude_of_json hjson, if_pos hjson]
    simp
  · rw [if_neg hjson, conclude_of_stdin hkeys (eq_false_of_ne_true hjson)]
    rfl

theorem runCalculator_of_pressGiven_error {stdin : List UInt8} {calculator after : Calculator}
    {log : Log} {e : RunError}
    (hpress : pressGiven options stdin calculator = (after, log, some e)) :
    runCalculator options stdin calculator =
      { code := 1, stdout := log.text, error := some e, warnings := log.warnings } := by
  rw [runCalculator, hpress]

/-- A line with a fault ends a run with the message for it.  The run printed and warned of what the
run on the lines in front of it does, but for the final state, and nothing from that line on was
pressed.  Keys given as an argument are all refused for one fault. -/
theorem run_ends_at_fault {surroundings : Surroundings}
    (hsettings : options.settings surroundings.find surroundings.defaultPath = .ok settings)
    (hkeys : options.keys = none) :
    let report := runOptions surroundings options
    ((∀ line ∈ Text.byteLines surroundings.stdin, IsSoundLine line) →
      report.code = 0 ∧ report.error = none) ∧
    (∀ before line after message,
      Text.byteLines surroundings.stdin = before ++ line :: after →
      (∀ line ∈ before, IsSoundLine line) → LineFault line message →
        let first := Text.takeLines 10 before.length surroundings.stdin
        let alone := runOptions { surroundings with stdin := first } options
        let pressed := (pressGiven options surroundings.stdin { settings }).1
        report.code = 1 ∧ report.error.map RunError.message = some message ∧
          report.warnings = alone.warnings ∧ alone.code = 0 ∧
          alone.stdout =
            report.stdout ++ (if options.json then pressed.entry.toJson ++ "\n" else "") ∧
          pressed = Calculator.pressAll { settings } (before.flatMap keysOfLine)) ∧
    (∀ (text : String) before c after, text.toList = before ++ c :: after →
      (∀ d ∈ before, ¬Key.IsUnknown d) → Key.IsUnknown c →
        runOptions surroundings { options with keys := some text } =
            { code := 1, stdout := "", error := some (.keys (.unknownKey c before.length)),
              warnings := [] } ∧
          (pressGiven { options with keys := some text } surroundings.stdin { settings }).1 =
            { settings }) := by
  intro report
  refine ⟨?_, ?_, ?_⟩
  · intro hlines
    rw [show report = _ from runOptions_of_isSoundLine hsettings hkeys hlines]
    exact ⟨rfl, rfl⟩
  · intro before line after message hlines hbefore hfault first alone pressed
    have hfirst : Text.byteLines first = before := by
      rw [Text.byteLines, Text.splitLines_takeLines, ← Text.byteLines, hlines,
        List.take_left]
    obtain ⟨e, hmessage, hpress⟩ :=
      exists_pressLines_of_fault options { settings } hbefore hfault after
    rw [← hlines, ← pressGiven_of_stdin hkeys] at hpress
    have hreport : report = _ := (runOptions_of_settings hsettings).trans
      (runCalculator_of_pressGiven_error hpress)
    have halone : alone = _ := @runOptions_of_isSoundLine options settings
      { surroundings with stdin := first } hsettings hkeys (by rwa [hfirst])
    have hpressed : pressed = Calculator.pressAll { settings } (before.flatMap keysOfLine) :=
      congrArg Prod.fst hpress
    dsimp only at halone
    rw [hfirst, ← List.flatMap_def, ← hpressed] at halone
    rw [hreport, halone]
    refine ⟨rfl, congrArg some hmessage, rfl, rfl, ?_, hpressed⟩
    rw [← text_conclude_of_stdin hkeys]
    exact Log.text_append _ _
  · intro text before c after htext hbefore hc
    have hpress := @pressGiven_of_unknown { options with keys := some text } text before after c
      rfl htext hbefore hc surroundings.stdin { settings }
    constructor
    · rw [@runOptions_of_settings _ { options with keys := some text } settings hsettings]
      exact runCalculator_of_pressGiven_error hpress
    · rw [hpress]

/-- The second of three lines has a character on no key. -/
theorem run_ends_at_fault_caret :
    let surroundings : Surroundings :=
      ⟨fun _ => .missing, "calcpad.toml", Text.encodeUtf8 "1+2\n2^8\n4"⟩
    let report := runOptions surroundings { json := true }
    let alone := runOptions { surroundings with stdin := Text.encodeUtf8 "1+2\n" } { json := true }
    report.code = 1 ∧
      report.error.map RunError.message = some "unrecognised key '^' at position 1" ∧
      report.warnings = alone.warnings ∧ alone.code = 0 ∧
      (∃ state, alone.stdout = report.stdout ++ (state ++ "\n")) ∧
      runOptions surroundings { json := true, keys := some "2^8" } =
        { code := 1, error := some (.keys (.unknownKey '^' 1)) } := by
  intro surroundings report alone
  have hsettings : Options.settings { json := true } (fun _ => .missing) "calcpad.toml" =
      .ok {} := by decide
  have hlines : Text.byteLines surroundings.stdin =
      [Text.encodeUtf8 "1+2"] ++ Text.encodeUtf8 "2^8" :: [Text.encodeUtf8 "4"] := by
    decide +kernel
  have hfirst : Text.takeLines 10 1 surroundings.stdin = Text.encodeUtf8 "1+2\n" := by
    decide +kernel
  have hparse : Key.parse "1+2" =
      .ok [.digit ⟨'1', rfl⟩, .operator .add, .digit ⟨'2', rfl⟩] := by
    decide
  have hsound : IsSoundLine (Text.encodeUtf8 "1+2") :=
    isSoundLine_of_decodeUtf8? (Text.decodeUtf8?_encodeUtf8 _) (Key.parse_eq_ok_iff.mp hparse).1
  have hbefore : ∀ d ∈ ['2'], ¬Key.IsUnknown d := List.forall_mem_singleton.mpr (by decide)
  have hfault : LineFault (Text.encodeUtf8 "2^8") "unrecognised key '^' at position 1" :=
    @LineFault.unknownKey _ "2^8" ['2'] ['8'] '^' (Text.decodeUtf8?_encodeUtf8 _) (by decide)
      hbefore (by decide)
  obtain ⟨-, hends, hrefused⟩ := @run_ends_at_fault { json := true } {} surroundings hsettings rfl
  obtain ⟨hcode, hmessage, hwarnings, hcode', hstdout, -⟩ :=
    hends _ _ _ _ hlines (by simpa using hsound) hfault
  dsimp only [List.length_singleton] at hwarnings hcode' hstdout
  rw [hfirst] at hwarnings hcode' hstdout
  have hargument := hrefused "2^8" ['2'] '^' ['8'] (by decide) hbefore (by decide)
  exact ⟨hcode, hmessage, hwarnings, hcode', ⟨_, hstdout⟩, hargument.1⟩

end Keypad.CommandLine
