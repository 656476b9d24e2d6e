import Keypad.CommandLine.Run
import Keypad.Proofs.CommandLine.Log
import Keypad.Proofs.Key
import Keypad.Proofs.NoBlanks

/-!
# Keys given as an argument

A text of keys is pressed as a whole.  What is printed for it are the traced lines, if every key
is traced, and behind them at most one line for the state that the keys lead to.  The trace of a
run goes through the screens that the runs on its first keys end with, and changes neither the
warnings nor the state.
-/

namespace Keypad.CommandLine

variable {surroundings : Surroundings} {options : Options} {settings : Settings} {text : String}

theorem runOptions_of_settings
    (hsettings : options.settings surroundings.find surroundings.defaultPath = .ok settings) :
    runOptions surroundings options =
      runCalculator options surroundings.stdin { settings } := by
  rw [runOptions, hsettings]

theorem runOptions_of_error {e : RunError}
    (hsettings : options.settings surroundings.find surroundings.defaultPath = .error e) :
    runOptions surroundings options = { code := 1, error := some e } := by
  rw [runOptions, hsettings]

/-- The report of a run in which all keys were pressed. -/
def keysReport (options : Options) (log : Log) (after : Calculator) : Report where
  code := 0
  stdout := (log ++ ⟨options.conclude after, []⟩).text
  warnings := log.warnings

theorem runCalculator_of_pressGiven {stdin : List UInt8} {calculator after : Calculator} {log : Log}
    (hpress : pressGiven options stdin calculator = (after, log, none)) :
    runCalculator options stdin calculator = keysReport options log after := by
  rw [runCalculator, hpress]
  dsimp only
  rw [Log.warnings_append, List.append_nil, keysReport]

theorem pressGiven_of_keys {keys : List Key} (hkeys : options.keys = some text)
    (hparse : Key.parse text = .ok keys) (stdin : List UInt8) (calculator : Calculator) :
    pressGiven options stdin calculator =
      (calculator.pressAll keys, pressAllLog options.trace calculator keys, none) := by
  rw [pressGiven, hkeys]
  dsimp only
  rw [pressText, hparse]

theorem runOptions_of_keys {keys : List Key}
    (hsettings : options.settings surroundings.find surroundings.defaultPath = .ok settings)
    (hkeys : options.keys = some text) (hparse : Key.parse text = .ok keys) :
    runOptions surroundings options =
      keysReport options (pressAllLog options.trace { settings } keys)
        (Calculator.pressAll { settings } keys) := by
  rw [runOptions_of_settings hsettings]
  exact runCalculator_of_pressGiven (pressGiven_of_keys hkeys hparse _ _)

/-- A text with a character of another kind is refused before any key is pressed. -/
theorem pressGiven_of_unknown {before after : List Char} {c : Char}
    (hkeys : options.keys = some text) (htext : text.toList = before ++ c :: after)
    (hbefore : ∀ d ∈ before, ¬Key.IsUnknown d) (hc : Key.IsUnknown c)
    (stdin : List UInt8) (calculator : Calculator) :
    pressGiven options stdin calculator =
      (calculator, {}, some (.keys (.unknownKey c before.length))) := by
  rw [pressGiven, hkeys]
  dsimp only
  rw [pressText, Key.parse_of_unknown htext hbefore hc]

/-! ## What is printed -/

theorem printsScreen_iff {options : Options} :
    options.printsScreen = true ↔ options.trace = false ∧ options.json = false := by
  rw [Options.printsScreen, Bool.and_eq_true, Bool.not_eq_true', Bool.not_eq_true']

theorem conclude_of_json (hjson : options.json = true) (calculator : Calculator) :
    options.conclude calculator = [calculator.entry.toJson] := by
  rw [Options.conclude, if_pos hjson]

theorem conclude_of_printsScreen (hkeys : options.keys = some text)
    (hscreen : options.printsScreen = true) (calculator : Calculator) :
    options.conclude calculator = [calculator.display] := by
  obtain ⟨htrace, hjson⟩ := printsScreen_iff.mp hscreen
  rw [Options.conclude, htrace, hjson, hkeys]
  rfl

theorem conclude_of_trace (htrace : options.trace = true) (hjson : options.json = false)
    (calculator : Calculator) : options.conclude calculator = [] := by
  rw [Options.conclude, hjson, htrace, Bool.not_true, Bool.and_false]
  rfl

theorem feed_not_mem_display (settings : Settings) (keys : List Key) :
    '\n' ∉ (Calculator.pressAll { settings } keys).display.toList :=
  (Calculator.noBlanks_pressAll settings keys).2.feed_not_mem

theorem feed_not_mem_toJson (settings : Settings) (keys : List Key) :
    '\n' ∉ (Calculator.pressAll { settings } keys).entry.toJson.toList :=
  (Entry.noBlanks_toJson (Calculator.noBlanks_pressAll settings keys).1).feed_not_mem

theorem isPrinted_keysReport {log : Log} {after : Calculator} {lines : List String}
    (hlines : log.lines ++ options.conclude after = lines)
    (hfeed : ∀ line ∈ lines, '\n' ∉ line.toList) :
    IsPrinted (keysReport options log after).stdout lines := by
  subst hlines
  exact Log.isPrinted_text hfeed

/-- A run that prints the screen once prints the screen after the last key. -/
theorem isPrinted_of_printsScreen {keys : List Key} (hkeys : options.keys = some text)
    (hscreen : options.printsScreen = true) :
    IsPrinted
      (keysReport options (pressAllLog options.trace { settings } keys)
        (Calculator.pressAll { settings } keys)).stdout
      [(Calculator.pressAll { settings } keys).display] := by
  apply isPrinted_keysReport
  · rw [(printsScreen_iff.mp hscreen).1, lines_pressAllLog_false, List.nil_append,
      conclude_of_printsScreen hkeys hscreen]
  · rw [List.forall_mem_singleton]
    exact feed_not_mem_display settings keys

/-- A run that prints the final state alone prints the one after the last key. -/
theorem isPrinted_of_json {keys : List Key} (htrace : options.trace = false)
    (hjson : options.json = true) :
    IsPrinted
      (keysReport options (pressAllLog options.trace { settings } keys)
        (Calculator.pressAll { settings } keys)).stdout
      [(Calculator.pressAll { settings } keys).entry.toJson] := by
  apply isPrinted_keysReport
  · rw [htrace, lines_pressAllLog_false, List.nil_append, conclude_of_json hjson]
  · rw [List.forall_mem_singleton]
    exact feed_not_mem_toJson settings keys

/-! ## Traced runs -/

theorem feed_not_mem_traceLine {key : Key} {screen : String} (hscreen : '\n' ∉ screen.toList) :
    '\n' ∉ (key.char.toString ++ "\t" ++ screen).toList := by
  have hkey : '\n' ≠ key.char := by
    intro hfeed
    have hblank := key.not_isBlank_char
    rw [← hfeed] at hblank
    exact absurd hblank (by decide)
  simpa [hkey] using hscreen

theorem feed_not_mem_of_mem_traceLines {keys : List Key} {screens : List String}
    (hscreens : ∀ screen ∈ screens, '\n' ∉ screen.toList) :
    ∀ line ∈ traceLines keys screens, '\n' ∉ line.toList := by
  induction keys generalizing screens with
  | nil => simp [traceLines]
  | cons key keys ih =>
      cases screens with
      | nil => simp [traceLines]
      | cons screen screens =>
          rw [List.forall_mem_cons] at hscreens
          rw [traceLines, List.zipWith_cons_cons, List.forall_mem_cons]
          exact ⟨feed_not_mem_traceLine hscreens.1, ih hscreens.2⟩

/-- The screens that the runs on the first keys of a sequence end with, key by key. -/
def prefixScreens (settings : Settings) (keys : List Key) : List String :=
  (Calculator.replies { settings } keys).map Reply.display

theorem length_prefixScreens (settings : Settings) (keys : List Key) :
    (prefixScreens settings keys).length = keys.length := by
  rw [prefixScreens, List.length_map, Calculator.length_replies]

theorem getElem_prefixScreens (settings : Settings) {keys : List Key} {place : Nat}
    (hplace : place < (prefixScreens settings keys).length) :
    (prefixScreens settings keys)[place] =
      (Calculator.pressAll { settings } (keys.take (place + 1))).display := by
  simp only [prefixScreens, List.getElem_map]
  exact Calculator.display_getElem_replies _ _

theorem feed_not_mem_prefixScreens (settings : Settings) (keys : List Key) :
    ∀ screen ∈ prefixScreens settings keys, '\n' ∉ screen.toList := by
  intro screen hscreen
  obtain ⟨place, hplace, rfl⟩ := List.mem_iff_getElem.mp hscreen
  rw [getElem_prefixScreens]
  exact feed_not_mem_display settings _

/-- The trace of a run on a key sequence has a line for each key, with the screen that the run on
the keys up to it prints.  It changes no warning, and the final state that is printed on demand
comes behind it as the one line that is printed without it. -/
theorem trace_shows_first_runs {keys : List Key}
    (hsettings : options.settings surroundings.find surroundings.defaultPath = .ok settings)
    (hparse : Key.parse text = .ok keys) :
    let report := fun text trace json =>
      runOptions surroundings { options with keys := some text, trace, json }
    (∀ trace json, (report text trace json).code = 0) ∧
      (∃ screens : List String, screens.length = keys.length ∧
        IsPrinted (report text true false).stdout (traceLines keys screens) ∧
        ∀ (i : Nat) (hi : i < screens.length) (first : String),
          Key.parse first = .ok (keys.take (i + 1)) →
            IsPrinted (report first false false).stdout [screens[i]]) ∧
      (∀ json, (report text true json).warnings = (report text false json).warnings) ∧
      ∃ state, IsPrinted (report text false true).stdout [state] ∧
        (report text true true).stdout =
          (report text true false).stdout ++ (state ++ "\n") := by
  intro report
  have hreport : ∀ {text : String} {keys : List Key}, Key.parse text = .ok keys →
      ∀ trace json, report text trace json =
        keysReport { options with keys := some text, trace, json }
          (pressAllLog trace { settings } keys) (Calculator.pressAll { settings } keys) := by
    intro text keys hparse trace json
    exact runOptions_of_keys hsettings rfl hparse
  refine ⟨?_, ?_, ?_, ?_⟩
  · intro trace json
    rw [hreport hparse]
    rfl
  · refine ⟨prefixScreens settings keys, length_prefixScreens settings keys, ?_, ?_⟩
    · rw [hreport hparse]
      apply isPrinted_keysReport
      · rw [conclude_of_trace rfl rfl, List.append_nil, lines_pressAllLog_true, prefixScreens]
      · exact feed_not_mem_of_mem_traceLines (feed_not_mem_prefixScreens settings keys)
    · intro i hi first hfirst
      rw [hreport hfirst, getElem_prefixScreens]
      exact isPrinted_of_printsScreen rfl rfl
  · intro json
    rw [hreport hparse, hreport hparse]
    exact warnings_pressAllLog _ _ _
  · refine ⟨(Calculator.pressAll { settings } keys).entry.toJson, ?_, ?_⟩
    · rw [hreport hparse]
      exact isPrinted_of_json rfl rfl
    · rw [hreport hparse, hreport hparse, keysReport, keysReport, conclude_of_json rfl,
        conclude_of_trace rfl rfl, Log.text_append, Log.text_append]
      simp [Log.text]

/-- In strict mode a key may be refused, and the screen shows what it showed before. -/
theorem trace_shows_first_runs_refused :
    let keys : List Key := [.operator .add, .digit ⟨'1', rfl⟩, .operator .add, .operator .add]
    let report := fun text trace json =>
      runOptions ⟨fun _ => .missing, "calcpad.toml", []⟩
        { keys := some text, strict := true, trace, json }
    Key.parse "+1 ++" = .ok keys ∧ Key.parse "+1+" = .ok (keys.take 3) ∧
      ∃ screens : List String, ∃ _ : screens.length = 4,
        IsPrinted (report "+1 ++" true false).stdout (traceLines keys screens) ∧
          IsPrinted (report "+1+" false false).stdout [screens[2]] := by
  intro keys report
  have hparse : Key.parse "+1 ++" = .ok keys := by decide
  have hfirst : Key.parse "+1+" = .ok (keys.take 3) := by decide
  have hsettings : Options.settings { strict := true } (fun _ => .missing) "calcpad.toml" =
      .ok { strict := true } := by decide
  obtain ⟨-, ⟨screens, hlength, htraced, hscreens⟩, -, -⟩ :=
    @trace_shows_first_runs ⟨fun _ => .missing, "calcpad.toml", []⟩ { strict := true }
      { strict := true } "+1 ++" keys hsettings hparse
  exact ⟨hparse, hfirst, screens, hlength, htraced,
    hscreens 2 (by rw [hlength]; decide) "+1+" hfirst⟩

end Keypad.CommandLine
