import Keypad.CommandLine.Arguments

/-!
# Arguments are read in turn

What arguments choose is what the reading of those behind them starts with.  Reading never ends
with a choice of options before the last argument, so options that were accepted may be followed
by two dashes and the keys.
-/

namespace Keypad.CommandLine

namespace Reading

/-- Whether the reading has ended with a choice of options. -/
def endsWithRun : Reading → Bool
  | .stop (.run _) => true
  | _ => false

@[simp] theorem endsWithRun_next (options : Options) : (next options).endsWithRun = false := rfl

@[simp] theorem endsWithRun_value (setting : Setting) (options : Options) :
    (value setting options).endsWithRun = false := rfl

@[simp] theorem endsWithRun_usageError : (stop .usageError).endsWithRun = false := rfl

@[simp] theorem endsWithRun_turnOn (options : Options) (switch : Switch) :
    (options.turnOn switch).endsWithRun = false := by
  cases switch with
  | strict => simp [Options.turnOn, apply_ite endsWithRun]
  | trace => simp [Options.turnOn, apply_ite endsWithRun]
  | json => simp [Options.turnOn, apply_ite endsWithRun]
  | help => rfl
  | version => rfl

@[simp] theorem endsWithRun_set (options : Options) (setting : Setting) (value : List Char) :
    (options.set setting value).endsWithRun = false := by
  cases setting with
  | config => simp [Options.set, apply_ite endsWithRun]
  | width =>
      simp only [Options.set]
      split <;> simp

@[simp] theorem endsWithRun_setKeys (options : Options) (keys : String) :
    (options.setKeys keys).endsWithRun = false := by
  simp [Options.setKeys, apply_ite endsWithRun]

@[simp] theorem endsWithRun_readNamed (options : Options) (name : String)
    (attached? : Option (List Char)) :
    (options.readNamed name attached?).endsWithRun = false := by
  unfold Options.readNamed
  split <;> simp

@[simp] theorem endsWithRun_readLetters (options : Options) (letters : List Char) :
    (options.readLetters letters).endsWithRun = false := by
  induction letters generalizing options with
  | nil => simp [Options.readLetters]
  | cons letter rest ih =>
      rw [Options.readLetters]
      split
      · next switch _ =>
          have hswitch := endsWithRun_turnOn options switch
          split
          · exact ih _
          · exact hswitch
      · split <;> simp
      · simp

theorem endsWithRun_readArgument (options : Options) (argument : String) :
    (options.readArgument argument).endsWithRun = false := by
  unfold Options.readArgument
  split <;> simp

end Reading

namespace Options

/-- What arguments in front of any two dashes choose is what the reading of further arguments
starts with. -/
theorem read_append {options chosen : Options} {arguments : List String}
    (hread : options.read arguments = .run chosen) (hdashes : "--" ∉ arguments)
    (more : List String) : options.read (arguments ++ more) = chosen.read more := by
  induction options, arguments using Options.read.induct with
  | case1 options =>
      rw [read] at hread
      rw [Request.run.inj hread, List.nil_append]
  | case2 options rest => exact absurd List.mem_cons_self hdashes
  | case3 options argument rest hargument later hlater ih =>
      rw [read, if_neg hargument, hlater] at hread
      rw [List.cons_append, read, if_neg hargument, hlater]
      exact ih hread fun hmem => hdashes (List.mem_cons_of_mem _ hmem)
  | case4 options argument rest hargument request hstop =>
      -- An argument that ends the reading asks for something else than a run.
      rw [read, if_neg hargument, hstop] at hread
      have hends := Reading.endsWithRun_readArgument options argument
      rw [hstop, show request = .run chosen from hread] at hends
      cases hends
  | case5 options argument hargument setting later hvalue =>
      rw [read, if_neg hargument, hvalue] at hread
      cases hread
  | case6 options argument hargument setting later hvalue value rest hlooks =>
      simp [read, hargument, hvalue, hlooks] at hread
  | case7 options argument hargument setting later hvalue value rest hlooks chosen' hset ih =>
      rw [read, if_neg hargument, hvalue] at hread
      rw [List.cons_append, read, if_neg hargument, hvalue, List.cons_append]
      dsimp only at hread ⊢
      rw [if_neg hlooks, hset] at hread ⊢
      apply ih hread
      intro hmem
      exact hdashes (List.mem_cons_of_mem _ (List.mem_cons_of_mem _ hmem))
  | case8 options argument hargument setting later hvalue value rest hlooks hset =>
      rw [read, if_neg hargument, hvalue] at hread
      dsimp only at hread
      rw [if_neg hlooks] at hread
      split at hread
      · next last hnext => exact absurd hnext (hset last)
      · cases hread

end Options

/-- Options that were accepted without keys are accepted with two dashes and any keys behind
them. -/
theorem Request.ofArguments_append_keys {arguments : List String} {options : Options}
    (hrequest : ofArguments arguments = .run options) (hkeys : options.keys = none)
    (hdashes : "--" ∉ arguments) (keys : String) :
    ofArguments (arguments ++ ["--", keys]) = .run { options with keys := some keys } := by
  rw [ofArguments, Options.read_append hrequest hdashes, Options.read, if_pos rfl,
    Options.readPositionals, Options.setKeys, hkeys]
  rfl

end Keypad.CommandLine
