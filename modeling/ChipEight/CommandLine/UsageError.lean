/-
# `ChipEight.CommandLine.UsageError` — what can be wrong with a command line

A usage error is reported with the usage and ends the program with code 2.
-/
import ChipEight.CommandLine.KeyList

namespace ChipEight.CommandLine

/-- Switches that stand for themselves. -/
inductive Flag where
  | help
  | trace
  | verbose
  deriving DecidableEq, Repr

/-- Switches that take a value. -/
inductive Setting where
  | ticks
  | perTick
  | seed
  | keys
  deriving DecidableEq, Repr

/-- A flag as it is named in messages. -/
def Flag.label : Flag → String
  | .help => "-h/--help"
  | .trace => "--trace"
  | .verbose => "--verbose/-v"

/-- A setting as it is named in messages. -/
def Setting.label : Setting → String
  | .ticks => "--ticks"
  | .perTick => "--ipt"
  | .seed => "--seed"
  | .keys => "--keys"

/-- What is wrong with a command line. -/
inductive UsageError where
  /-- An abbreviation of several switches. -/
  | ambiguous (text : String) (spellings : List String)
  /-- A setting without a value. -/
  | valueMissing (setting : Setting)
  /-- A flag with a value. -/
  | valueIgnored (flag : Flag) (value : String)
  /-- A number that cannot be read. -/
  | badInteger (setting : Setting) (value : String)
  /-- A list of keys that cannot be read. -/
  | badKeys (e : KeyError)
  | romMissing
  /-- Words and switches that nothing takes. -/
  | unrecognized (texts : List String)
  /-- Options that a run does not accept, with the description of what is wrong with them. -/
  | badOptions (description : String)
  | negativeTicks (ticks : Int)
  /-- No regular file has the ROM's path. -/
  | romNotFound (path : String)
  deriving DecidableEq, Repr

/-! ## Wording -/

/-- A message about one switch. -/
def aboutArgument (label text : String) : String := "argument " ++ label ++ ": " ++ text

/-- The description of a usage error. -/
def UsageError.message : UsageError → String
  | .ambiguous text spellings =>
      "ambiguous option: " ++ text ++ " could match " ++ ", ".intercalate spellings
  | .valueMissing setting => aboutArgument setting.label "expected one argument"
  | .valueIgnored flag value =>
      aboutArgument flag.label ("ignored explicit argument " ++ Text.quoted value.toList)
  | .badInteger setting value =>
      aboutArgument setting.label ("invalid int value: " ++ Text.quoted value.toList)
  | .badKeys e => aboutArgument Setting.keys.label e.message
  | .romMissing => "the following arguments are required: rom"
  | .unrecognized texts => "unrecognized arguments: " ++ " ".intercalate texts
  | .badOptions description => description
  | .negativeTicks ticks => "--ticks must be >= 0, got " ++ Text.decimalInt ticks
  | .romNotFound path => "ROM not found: " ++ path

end ChipEight.CommandLine
