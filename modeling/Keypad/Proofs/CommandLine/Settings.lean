import Keypad.Proofs.CommandLine.Keys
import Keypad.Proofs.Text.Lines

/-!
# The settings of a run

A run looks for settings in one file: the one that is named, or else the default one, which may be
missing.  The file is read first, then its text is parsed and its width checked, and last the width
that the arguments choose.  The first check that fails ends the run with an error of its own, and
nothing that follows it is looked at.  So the screen of a calculator always fits both markers.
-/

namespace Keypad

namespace CommandLine

variable {find : String → FileState} {defaultPath : String} {options : Options}

/-! ## What a run finds -/

/-- The path of the settings file of a run, if it has one. -/
inductive SettingsFile (find : String → FileState) (defaultPath : String) (options : Options) :
    Option String → Prop
  | named {path : String} (hconfig : options.config = some path) :
    SettingsFile find defaultPath options (some path)
  | byDefault (hconfig : options.config = none) (hpresent : find defaultPath ≠ .missing) :
    SettingsFile find defaultPath options (some defaultPath)
  | missing (hconfig : options.config = none) (hmissing : find defaultPath = .missing) :
    SettingsFile find defaultPath options none

/-- Whether a path leads to a file that holds a text. -/
def HoldsText (find : String → FileState) (path text : String) : Prop :=
  ∃ bytes, find path = .file bytes ∧ Text.decodeUtf8? bytes = some text

/-- The fields that a run finds: none without a settings file, or else those of the file. -/
inductive FindsFields (find : String → FileState) (defaultPath : String) (options : Options) :
    Settings.Fields → Prop
  | missing (hfile : SettingsFile find defaultPath options none) :
    FindsFields find defaultPath options {}
  | file {path text : String} {fields : Settings.Fields}
      (hfile : SettingsFile find defaultPath options (some path))
      (htext : HoldsText find path text)
      (hfields : Settings.Fields.read? text.toList = some fields) :
    FindsFields find defaultPath options fields

/-- Whether both markers fit on a screen of a width, if it is given. -/
def FitsMarkers (width? : Option UInt64) : Prop := ∀ width, width? = some width → 9 ≤ width.toNat

theorem fitsMarkers_none : FitsMarkers none := by
  intro width hwidth
  cases hwidth

theorem fitsMarkers_some {width : UInt64} (hwide : 9 ≤ width.toNat) :
    FitsMarkers (some width) := by
  intro given hgiven
  cases hgiven
  exact hwide

/-- The first check on the settings of a run that fails, by the error for it. -/
inductive SettingsFault (find : String → FileState) (defaultPath : String) (options : Options) :
    RunError → Prop
  | unreadable {path : String} (hfile : SettingsFile find defaultPath options (some path))
      (htext : ∀ text, ¬HoldsText find path text) :
    SettingsFault find defaultPath options (.load (.unreadable path))
  | malformed {path text : String} (hfile : SettingsFile find defaultPath options (some path))
      (htext : HoldsText find path text)
      (hfields : Settings.Fields.read? text.toList = none) :
    SettingsFault find defaultPath options (.load (.invalid path .malformed))
  | narrowFile {path text : String} {fields : Settings.Fields} {width : UInt64}
      (hfile : SettingsFile find defaultPath options (some path))
      (htext : HoldsText find path text)
      (hfields : Settings.Fields.read? text.toList = some fields)
      (hwidth : fields.width = some width) (hnarrow : width.toNat < 9) :
    SettingsFault find defaultPath options (.load (.invalid path (.narrowScreen width)))
  | narrowWidth {fields : Settings.Fields} {width : UInt64}
      (hfields : FindsFields find defaultPath options fields) (hfits : FitsMarkers fields.width)
      (hwidth : options.width = some width) (hnarrow : width.toNat < 9) :
    SettingsFault find defaultPath options (.settings (.narrowScreen width))

/-! ## Loading -/

theorem load_of_missing (hfile : SettingsFile find defaultPath options none) :
    Settings.load find defaultPath options.config = .ok {} := by
  cases hfile with
  | missing hconfig hmissing =>
      rw [hconfig, Settings.load, hmissing]
      rfl

theorem load_of_settingsFile {path : String}
    (hfile : SettingsFile find defaultPath options (some path)) :
    Settings.load find defaultPath options.config = Settings.read find path := by
  cases hfile with
  | named hconfig =>
      rw [hconfig]
      rfl
  | byDefault hconfig hpresent =>
      have hisPresent : (find defaultPath).isPresent = true := by
        cases hstate : find defaultPath with
        | missing => exact absurd hstate hpresent
        | directory => rfl
        | file bytes => rfl
      rw [hconfig, Settings.load, if_pos hisPresent]

theorem exists_settingsFile (find : String → FileState) (defaultPath : String)
    (options : Options) : ∃ path?, SettingsFile find defaultPath options path? := by
  cases hconfig : options.config with
  | some path => exact ⟨_, .named hconfig⟩
  | none =>
      by_cases hmissing : find defaultPath = .missing
      · exact ⟨_, .missing hconfig hmissing⟩
      · exact ⟨_, .byDefault hconfig hmissing⟩

theorem read_of_not_holdsText {path : String} (htext : ∀ text, ¬HoldsText find path text) :
    Settings.read find path = .error (.unreadable path) := by
  cases hstate : find path with
  | missing => rw [Settings.read, hstate]
  | directory => rw [Settings.read, hstate]
  | file bytes =>
      cases hdecode : Text.decodeUtf8? bytes with
      | some text => exact absurd ⟨bytes, hstate, hdecode⟩ (htext text)
      | none =>
          rw [Settings.read, hstate]
          dsimp only
          rw [hdecode]

theorem read_of_valid {path text : String} {settings : Settings}
    (htext : HoldsText find path text) (hvalid : Settings.ofToml text = .ok settings) :
    Settings.read find path = .ok settings := by
  obtain ⟨bytes, hstate, hdecode⟩ := htext
  rw [Settings.read, hstate]
  dsimp only
  rw [hdecode]
  dsimp only
  rw [hvalid]

theorem read_of_invalid {path text : String} {cause : SettingsError}
    (htext : HoldsText find path text) (hinvalid : Settings.ofToml text = .error cause) :
    Settings.read find path = .error (.invalid path cause) := by
  obtain ⟨bytes, hstate, hdecode⟩ := htext
  rw [Settings.read, hstate]
  dsimp only
  rw [hdecode]
  dsimp only
  rw [hinvalid]

theorem width_ofFields (fields : Settings.Fields) :
    (Settings.ofFields fields).width = fields.width.getD 9 := rfl

theorem le_width_getD {width? : Option UInt64} (hfits : FitsMarkers width?) :
    9 ≤ (width?.getD 9).toNat := by
  cases hwidth : width? with
  | none => decide
  | some width => exact hfits width hwidth

/-- The fields that a run finds are loaded, with the defaults for those that are missing. -/
theorem load_of_findsFields {fields : Settings.Fields}
    (hfields : FindsFields find defaultPath options fields) (hfits : FitsMarkers fields.width) :
    Settings.load find defaultPath options.config = .ok (Settings.ofFields fields) := by
  cases hfields with
  | missing hfile => exact load_of_missing hfile
  | file hfile htext hread =>
      rw [load_of_settingsFile hfile]
      apply read_of_valid htext
      rw [Settings.ofToml_of_fields hread]
      exact Settings.validate_of_le (le_width_getD hfits)

/-! ## Settings and faults -/

theorem settings_of_findsFields {fields : Settings.Fields}
    (hfields : FindsFields find defaultPath options fields) (hfile : FitsMarkers fields.width)
    (harguments : FitsMarkers options.width) :
    options.settings find defaultPath =
      .ok ⟨fields.strict.getD false || options.strict,
        (options.width.or fields.width).getD 9⟩ := by
  rw [Options.settings, load_of_findsFields hfields hfile]
  dsimp only
  cases hwidth : options.width with
  | none => rfl
  | some width =>
      dsimp only
      rw [Settings.validate_of_le (harguments width hwidth)]
      rfl

theorem settings_of_load_error {e : LoadError}
    (hload : Settings.load find defaultPath options.config = .error e) :
    options.settings find defaultPath = .error (.load e) := by
  rw [Options.settings, hload]

theorem settings_of_settingsFault {e : RunError}
    (hfault : SettingsFault find defaultPath options e) :
    options.settings find defaultPath = .error e := by
  cases hfault with
  | unreadable hfile htext =>
      apply settings_of_load_error
      rw [load_of_settingsFile hfile, read_of_not_holdsText htext]
  | malformed hfile htext hread =>
      apply settings_of_load_error
      rw [load_of_settingsFile hfile]
      exact read_of_invalid htext (Settings.ofToml_of_malformed hread)
  | @narrowFile path text fields width hfile htext hread hwidth hnarrow =>
      have hgiven : (Settings.ofFields fields).width = width := by
        rw [width_ofFields, hwidth, Option.getD_some]
      have hinvalid : Settings.ofToml text = .error (.narrowScreen width) := by
        rw [Settings.ofToml_of_fields hread, ← hgiven]
        exact Settings.validate_of_lt (by rwa [hgiven])
      apply settings_of_load_error
      rw [load_of_settingsFile hfile]
      exact read_of_invalid htext hinvalid
  | narrowWidth hfields hfits hwidth hnarrow =>
      rw [Options.settings, load_of_findsFields hfields hfits, hwidth]
      dsimp only
      rw [Settings.validate_of_lt hnarrow]

theorem exists_narrow_of_not_fitsMarkers {width? : Option UInt64} (hfits : ¬FitsMarkers width?) :
    ∃ width, width? = some width ∧ width.toNat < 9 := by
  rw [FitsMarkers, not_forall] at hfits
  obtain ⟨width, hnarrow⟩ := hfits
  rw [not_forall, exists_prop, Nat.not_le] at hnarrow
  exact ⟨width, hnarrow⟩

/-- Either the settings file of a run has a text with fields and a width that fits, or there is a
first check on it that fails. -/
theorem findsFields_or_settingsFault_of_settingsFile {path : String}
    (hfile : SettingsFile find defaultPath options (some path)) :
    (∃ fields, FindsFields find defaultPath options fields ∧ FitsMarkers fields.width) ∨
      ∃ e, SettingsFault find defaultPath options e := by
  by_cases hreadable : ∃ text, HoldsText find path text
  · obtain ⟨text, htext⟩ := hreadable
    cases hread : Settings.Fields.read? text.toList with
    | none => exact .inr ⟨_, .malformed hfile htext hread⟩
    | some fields =>
        by_cases hfits : FitsMarkers fields.width
        · exact .inl ⟨fields, .file hfile htext hread, hfits⟩
        · obtain ⟨width, hwidth, hnarrow⟩ := exists_narrow_of_not_fitsMarkers hfits
          exact .inr ⟨_, .narrowFile hfile htext hread hwidth hnarrow⟩
  · exact .inr ⟨_, .unreadable hfile (not_exists.mp hreadable)⟩

theorem findsFields_or_settingsFault (find : String → FileState) (defaultPath : String)
    (options : Options) :
    (∃ fields, FindsFields find defaultPath options fields ∧ FitsMarkers fields.width) ∨
      ∃ e, SettingsFault find defaultPath options e := by
  obtain ⟨path?, hfile⟩ := exists_settingsFile find defaultPath options
  cases path? with
  | some path => exact findsFields_or_settingsFault_of_settingsFile hfile
  | none => exact .inl ⟨{}, .missing hfile, fitsMarkers_none⟩

/-- Either all checks succeed, or there is a first one that fails. -/
theorem valid_or_settingsFault (find : String → FileState) (defaultPath : String)
    (options : Options) :
    (∃ fields, FindsFields find defaultPath options fields ∧ FitsMarkers fields.width ∧
        FitsMarkers options.width) ∨
      ∃ e, SettingsFault find defaultPath options e := by
  obtain ⟨fields, hfields, hfile⟩ | hfault :=
    findsFields_or_settingsFault find defaultPath options
  · by_cases harguments : FitsMarkers options.width
    · exact .inl ⟨fields, hfields, hfile, harguments⟩
    · obtain ⟨width, hwidth, hnarrow⟩ := exists_narrow_of_not_fitsMarkers harguments
      exact .inr ⟨_, .narrowWidth hfields hfile hwidth hnarrow⟩
  · exact .inr hfault

theorem fitsMarkers_or {chosen? found? : Option UInt64} (hchosen : FitsMarkers chosen?)
    (hfound : FitsMarkers found?) : FitsMarkers (chosen?.or found?) := by
  cases chosen? with
  | none => exact hfound
  | some width => exact hchosen

/-! ## Runs -/

theorem run_of_request {surroundings : Surroundings} {arguments : List String}
    (hrequest : Request.ofArguments arguments = .run options) :
    run surroundings arguments = runOptions surroundings options := by
  rw [run, hrequest]

/-- Keys are pressed exactly if every check on the settings succeeds, and then on a calculator
whose screen fits both markers: it is strict if the file or the arguments say so, and its width
is the one that the arguments choose, or else the one of the file, or else the default.  The
first check that fails ends the run with its error, whatever keys were given. -/
theorem run_resolves_settings {arguments : List String} {options : Options}
    (hrequest : Request.ofArguments arguments = .run options) (surroundings : Surroundings) :
    let find := surroundings.find
    let defaultPath := surroundings.defaultPath
    let report := run surroundings arguments
    (∀ fields, FindsFields find defaultPath options fields → FitsMarkers fields.width →
      FitsMarkers options.width →
        let settings : Settings :=
          ⟨fields.strict.getD false || options.strict, (options.width.or fields.width).getD 9⟩
        report = runCalculator options surroundings.stdin { settings } ∧
          9 ≤ settings.width.toNat) ∧
      (∀ e, SettingsFault find defaultPath options e →
        report = { code := 1, stdout := "", error := some e, warnings := [] } ∧
          ∀ keys stdin, runOptions { surroundings with stdin } { options with keys } = report) ∧
      ((∃ fields, FindsFields find defaultPath options fields ∧ FitsMarkers fields.width ∧
          FitsMarkers options.width) ↔
        ¬∃ e, SettingsFault find defaultPath options e) := by
  intro find defaultPath report
  have hreport : report = runOptions surroundings options := run_of_request hrequest
  refine ⟨?_, ?_, ?_, ?_⟩
  · intro fields hfields hfile harguments settings
    have hsettings : options.settings find defaultPath = .ok settings :=
      settings_of_findsFields hfields hfile harguments
    refine ⟨?_, le_width_getD (fitsMarkers_or harguments hfile)⟩
    rw [hreport, runOptions_of_settings hsettings]
  · intro e hfault
    have hsettings : options.settings find defaultPath = .error e :=
      settings_of_settingsFault hfault
    have hrefused : report = { code := 1, error := some e } := by
      rw [hreport, runOptions_of_error hsettings]
    refine ⟨hrefused, ?_⟩
    intro keys stdin
    -- The checks look at neither the keys nor standard input.
    have hsame : Options.settings { options with keys } find defaultPath = .error e := hsettings
    rw [hrefused]
    exact runOptions_of_error hsame
  · rintro ⟨fields, hfields, hfile, harguments⟩ ⟨e, hfault⟩
    have hok := settings_of_findsFields hfields hfile harguments
    rw [settings_of_settingsFault hfault] at hok
    cases hok
  · intro hsound
    obtain hvalid | hfault := valid_or_settingsFault find defaultPath options
    · exact hvalid
    · exact absurd hfault hsound

/-- A file with a narrow screen ends the run even if the arguments choose a wide one, which is
the one that counts beside a file with a wide screen. -/
theorem run_resolves_settings_chosen_width :
    let options : Options :=
      { keys := some "1+2=", config := some "c.toml", strict := true, width := some 12 }
    let report := fun text =>
      run ⟨fun path => if path = "c.toml" then .file (Text.encodeUtf8 text) else .missing,
        "calcpad.toml", []⟩ ["--config", "c.toml", "--strict", "--width", "12", "1+2="]
    report "display_width = 4\n" =
        { code := 1, error := some (.load (.invalid "c.toml" (.narrowScreen 4))) } ∧
      report "display_width = 10\n" = runCalculator options [] { settings := ⟨true, 12⟩ } := by
  intro options report
  have hrequest : Request.ofArguments
      ["--config", "c.toml", "--strict", "--width", "12", "1+2="] = .run options := by decide
  have hfile : ∀ find, SettingsFile find "calcpad.toml" options (some "c.toml") := by
    intro find
    exact .named rfl
  have htext : ∀ text : String, HoldsText
      (fun path => if path = "c.toml" then .file (Text.encodeUtf8 text) else .missing)
      "c.toml" text := by
    intro text
    exact ⟨Text.encodeUtf8 text, if_pos rfl, Text.decodeUtf8?_encodeUtf8 text⟩
  have hnarrow : Settings.Fields.read? "display_width = 4\n".toList = some ⟨none, some 4⟩ := by
    decide
  have hwide : Settings.Fields.read? "display_width = 10\n".toList = some ⟨none, some 10⟩ := by
    decide
  constructor
  · exact ((run_resolves_settings hrequest ⟨_, _, _⟩).2.1 _
      (.narrowFile (hfile _) (htext _) hnarrow rfl (by decide))).1
  · have hfits : FitsMarkers (some 10) := fitsMarkers_some (by decide)
    have hchosen : FitsMarkers options.width := fitsMarkers_some (by decide)
    exact ((run_resolves_settings hrequest ⟨_, _, _⟩).1 _
      (.file (hfile _) (htext _) hwide) hfits hchosen).1

end CommandLine

end Keypad
