/-
# `ChipEight.CommandLine.Arguments` — what a command line asks for

The tokens take effect from left to right.  The first word names the ROM; later
words and switches that do not exist are collected and refused at the end.  A
setting takes the text attached to it, or else the word behind it; the last
value for a setting counts.  Flags may be clustered behind one dash.  The flag
for help ends everything at once.

A double dash next to the word that names the ROM belongs to that word.
-/
import ChipEight.CommandLine.Token
import ChipEight.Options.Value

namespace ChipEight.CommandLine

/-- The settings and flags of a command line.  The two values that are checked as options later
are kept as they come. -/
structure Settings where
  /-- The number of ticks; none if it is given without a value. -/
  ticks : Option Int := some 60
  perTick : FieldValue := .int 4
  seed : FieldValue := .null
  keys : List (Fin 16) := []
  trace : Bool := false
  verbose : Bool := false
  deriving DecidableEq, Repr

/-- A command line that asks for a run. -/
structure Arguments where
  rom : String
  settings : Settings
  deriving DecidableEq, Repr

/-- What a command line asks for. -/
inductive Demand where
  | help
  | run (a : Arguments)
  deriving DecidableEq, Repr

/-- What has been read so far. -/
structure Reading where
  rom : Option String := none
  settings : Settings := {}
  /-- Texts that nothing takes. -/
  surplus : List String := []

/-! ## Settings -/

/-- The number that is the value of a setting. -/
def integerFor (setting : Setting) (value : String) : Except UsageError Int :=
  match Text.readInt? Text.decimalFormat value.toList with
  | some n => .ok n
  | none => .error (.badInteger setting value)

/-- Gives a setting a value. -/
def Settings.set (s : Settings) (setting : Setting) (value : String) : Except UsageError Settings :=
  match setting with
  | .ticks => do return { s with ticks := some (← integerFor .ticks value) }
  | .perTick => do return { s with perTick := .int (← integerFor .perTick value) }
  | .seed => do return { s with seed := .int (← integerFor .seed value) }
  | .keys =>
      match KeyList.parse value.toList with
      | .ok keys => .ok { s with keys }
      | .error e => .error (.badKeys e)

/-- Gives a setting no value at all, which is not the same as leaving it out. -/
def Settings.empty (s : Settings) : Setting → Settings
  | .ticks => { s with ticks := none }
  | .perTick => { s with perTick := .list }
  | .seed => { s with seed := .list }
  | .keys => { s with keys := [] }

/-- Gives a setting an attached value; an attached double dash counts as no value. -/
def Settings.setAttached (s : Settings) (setting : Setting) (value : String) :
    Except UsageError Settings :=
  if value = "--" then .ok (s.empty setting) else s.set setting value

/-! ## Flags -/

/-- The flags of a cluster, of which the first is known: each letter behind it must be a flag. -/
def clusterFrom (first : Flag) : List Char → Except UsageError (List Flag)
  | [] => .ok [first]
  | letter :: rest =>
      match flagOfLetter? letter with
      | some next => (clusterFrom next rest).map (first :: ·)
      | none => .error (.valueIgnored first (.ofList (letter :: rest)))

/-- The flags that one argument raises.  Text can only be attached to a flag as further letters of
a cluster. -/
def cluster (first : Flag) (long : Bool) : Option String → Except UsageError (List Flag)
  | none => .ok [first]
  | some attached =>
      if long || attached.isEmpty then .error (.valueIgnored first attached)
      else clusterFrom first attached.toList

/-- Raises flags in turn; nothing is left once help is asked for. -/
def Settings.raise (s : Settings) : List Flag → Option Settings
  | [] => some s
  | .help :: _ => none
  | .trace :: flags => { s with trace := true }.raise flags
  | .verbose :: flags => { s with verbose := true }.raise flags

/-! ## Reading the tokens -/

/-- Sets a text aside that nothing takes. -/
def Reading.setAside (r : Reading) (text : String) : Reading :=
  { r with surplus := r.surplus ++ [text] }

/-- What has been asked for once all is read. -/
def Reading.finish (r : Reading) : Except UsageError Demand :=
  match r.rom, r.surplus with
  | none, _ => .error .romMissing
  | some rom, [] => .ok (.run ⟨rom, r.settings⟩)
  | some _, surplus => .error (.unrecognized surplus)

/-- Reads tokens from left to right. -/
def Reading.consume (r : Reading) : List Token → Except UsageError Demand
  | [] => r.finish
  | .word text :: .separator :: rest =>
      match r.rom with
      | none => { r with rom := some text }.consume rest
      | some _ => ((r.setAside text).setAside "--").consume rest
  | .word text :: rest =>
      match r.rom with
      | none => { r with rom := some text }.consume rest
      | some _ => (r.setAside text).consume rest
  | .separator :: .word text :: rest =>
      match r.rom with
      | none => { r with rom := some text }.consume rest
      | some _ => ((r.setAside "--").setAside text).consume rest
  | .separator :: rest => (r.setAside "--").consume rest
  | .unknown text :: rest => (r.setAside text).consume rest
  | .switch (.flag first) long attached :: rest =>
      match cluster first long attached with
      | .error e => .error e
      | .ok flags =>
          match r.settings.raise flags with
          | none => .ok .help
          | some settings => { r with settings }.consume rest
  | .switch (.setting setting) _ (some value) :: rest =>
      match r.settings.setAttached setting value with
      | .error e => .error e
      | .ok settings => { r with settings }.consume rest
  | .switch (.setting setting) _ none :: .word value :: rest =>
      match r.settings.set setting value with
      | .error e => .error e
      | .ok settings => { r with settings }.consume rest
  | .switch (.setting setting) _ none :: _ => .error (.valueMissing setting)

/-- What a command line asks for. -/
def read (argv : List String) : Except UsageError Demand :=
  match classify argv with
  | .error e => .error e
  | .ok tokens => Reading.consume {} tokens

end ChipEight.CommandLine
