/-
# `ChipEight.CommandLine.Response` — what the program answers

The answer to a command line is an exit code and two texts, one for each output.
Wrong usage is reported with the usage and has code 2; a ROM that is too large
or an unassigned word has code 1.  The causes are looked at in a fixed order:
the arguments, the options of the run, the number of ticks, the file, the size
of the ROM, the run.  Whatever a run has done is printed also when it ended in a
fault: the trace if asked for, the picture, and a line with the registers.

With the verbose flag a log precedes the errors.

Two causes end the program without an answer: a number of ticks given without a
value, and a file that the system refuses to look up or to read.  The code is 1
then, and nothing is printed but what has been logged before.

**Proved here.**

    the log stands in front and changes no code   (`reply_verbose`)
-/
import ChipEight.CommandLine.Arguments
import ChipEight.CommandLine.FileTree
import ChipEight.Run

namespace ChipEight.CommandLine

/-- An exit code and the texts on both outputs. -/
structure Response where
  code : Nat
  stdout : String
  stderr : String
  deriving DecidableEq, Repr

/-- Why the program ends without an answer. -/
inductive Breakdown where
  /-- The number of ticks was given, but without a value. -/
  | ticksWithoutValue
  /-- The system refuses to look a file up or to read it. -/
  | fileRefused (e : SystemError) (path : String)
  deriving DecidableEq, Repr

/-- The description of a breakdown. -/
def Breakdown.message : Breakdown → String
  | .ticksWithoutValue => "'<' not supported between instances of 'list' and 'int'"
  | .fileRefused e path =>
      "[Errno " ++ Text.decimal e.number ++ "] " ++ e.description ++ ": " ++ Text.quoted path.toList

/-- How the program ends. -/
inductive Outcome where
  | answer (r : Response)
  /-- A breakdown, behind what has been logged before. -/
  | breakdown (log : String) (b : Breakdown)
  deriving DecidableEq, Repr

/-! ## Fixed texts -/

/-- How the program is called. -/
def usage : String :=
  "usage: chip8-run [-h] [--ticks N] [--ipt N] [--seed SEED] [--keys KEYS]\n" ++
  "                 [--trace] [--verbose]\n" ++
  "                 rom\n"

/-- What the arguments mean. -/
def helpText : String :=
  usage ++ "\n" ++
  "Run a CHIP-8 ROM headless and print the final screen\n" ++
  "\n" ++
  "positional arguments:\n" ++
  "  rom            Raw ROM image, loaded at 0x200\n" ++
  "\n" ++
  "options:\n" ++
  "  -h, --help     show this help message and exit\n" ++
  "  --ticks N      Number of host ticks to run (default: 60)\n" ++
  "  --ipt N        Instructions per tick (default: 4)\n" ++
  "  --seed SEED    Seed for the RND instruction\n" ++
  "  --keys KEYS    Hex keys held down for the whole run, e.g. 1,A\n" ++
  "  --trace        Print executed instructions\n" ++
  "  --verbose, -v  Enable debug logging\n"

/-- The answer to a request for help. -/
def Response.help : Response := ⟨0, helpText, ""⟩

/-- The answer to wrong usage. -/
def Response.ofUsageError (e : UsageError) : Response :=
  ⟨2, "", usage ++ "chip8-run: error: " ++ e.message ++ "\n"⟩

/-- Wrong usage as an end of the program. -/
def Outcome.ofUsageError (e : UsageError) : Outcome := .answer (.ofUsageError e)

/-! ## Printing a run -/

/-- The line of one completed instruction. -/
def entryLine (e : Entry) : String := Text.hexInt 3 e.address ++ ": " ++ Text.hex 4 e.word.toNat ++ "\n"

/-- The line with the registers and timers. -/
def summaryLine (m : Machine) : String :=
  "PC=" ++ Text.hexInt 3 m.pc ++ " I=" ++ Text.hexInt 3 m.index ++ " SP=" ++ Text.hexInt 1 m.sp ++
  " DT=" ++ Text.decimalInt m.delay ++ " ST=" ++ Text.decimalInt m.sound ++
  " V=[" ++ " ".intercalate (m.registers.toList.map fun b => Text.hex 2 b.toNat) ++ "]\n"

/-- The picture and the summary of a machine. -/
def machineText (m : Machine) : String := m.screen.render "#" "." ++ "\n" ++ summaryLine m

/-- All that is printed of a run; the trace is empty unless it was asked for. -/
def runText (r : Run) : String :=
  String.join (r.trace.toList.map entryLine) ++ machineText r.machine

/-- The line that reports a ROM that is too large. -/
def romErrorLine (e : RomTooLarge) : String := "error: " ++ e.report.message ++ "\n"

/-- The line that reports how a run failed. -/
def reportLine (r : Report) : String :=
  "error: " ++ r.kind.name ++ ": " ++ r.message ++ " at 0x" ++ Text.hexInt 3 r.address ++
  " (tick " ++ Text.decimalInt r.tick ++ ")\n"

/-! ## The log -/

/-- A line of the log, with the part of the program it comes from. -/
def logLine (part text : String) : String := "DEBUG:" ++ part ++ ":" ++ text ++ "\n"

/-- What is logged before the ROM is looked at. -/
def startLog (path : String) (ticks : Int) : String :=
  logLine "chip8.cli" ("Running " ++ path ++ " for " ++ Text.decimalInt ticks ++ " ticks")

/-- What is logged when a ROM of some size has been loaded. -/
def loadLog (size : Nat) : String :=
  logLine "chip8.loader"
    ("Loaded " ++ Text.decimal size ++ " byte ROM at 0x" ++ Text.hex 3 romStart)

/-- What is logged when a run stops at an unassigned word. -/
def faultLog (f : Fault) (ticks : Nat) : String :=
  logLine "chip8.instructions"
    ("Invalid opcode 0x" ++ Text.hex 4 f.word.toNat ++ " at 0x" ++ Text.hex 3 f.address.val) ++
  logLine "chip8.runner"
    ("Run stopped at tick " ++ Text.decimal ticks ++ ": " ++ (f.report ticks).message)

/-! ## Answering -/

/-- A run that is ready but for the contents of its ROM. -/
structure Plan where
  path : Path
  ticks : Int
  options : Options
  keys : List (Fin 16)
  verbose : Bool
  deriving DecidableEq, Repr

/-- What the arguments say about the options of the run. -/
def Settings.fields (s : Settings) : List (String × FieldValue) :=
  [ (Field.instructionsPerTick.name, s.perTick), (Field.seed.name, s.seed),
    (Field.trace.name, .bool s.trace) ]

section

variable {ε : Type} (v : Validator ε)

/-- Checks arguments as far as that can be done without the file; `v` makes the options. -/
def Arguments.plan (a : Arguments) : Except Outcome Plan :=
  match Options.ofFields v a.settings.fields, a.settings.ticks with
  | .error errors, _ => .error (.ofUsageError (.badOptions (v.describe Options.schema errors)))
  | .ok _, none => .error (.breakdown "" .ticksWithoutValue)
  | .ok options, some ticks =>
      if ticks < 0 then .error (.ofUsageError (.negativeTicks ticks))
      else .ok
        { path := .ofText a.rom
          ticks
          options
          keys := a.settings.keys
          verbose := a.settings.verbose }

end

namespace Plan

/-- The outcome of the planned run on a ROM. -/
def run (p : Plan) (rom : List Byte) (chosenSeed : Int) : Except RomTooLarge Run :=
  Run.ofRom rom p.ticks p.options (p.keys.map fun k => (k.val : Int)) chosenSeed

/-- The log of an outcome. -/
def log (p : Plan) (rom : List Byte) (outcome : Except RomTooLarge Run) : String :=
  startLog p.path.text p.ticks ++
    match outcome with
    | .error _ => ""
    | .ok r => loadLog rom.length ++
        match r.fault with
        | none => ""
        | some f => faultLog f r.ticks

/-- The answer that an outcome gets when nothing is logged. -/
def answer (outcome : Except RomTooLarge Run) : Response :=
  match outcome with
  | .error e => ⟨1, "", romErrorLine e⟩
  | .ok r =>
      match r.report with
      | none => ⟨0, runText r, ""⟩
      | some report => ⟨1, runText r, reportLine report⟩

/-- Puts a log in front of the errors. -/
def logged (log : String) (r : Response) : Response := { r with stderr := log ++ r.stderr }

/-- The answer to a planned run on a ROM. -/
def reply (p : Plan) (rom : List Byte) (chosenSeed : Int) : Response :=
  let outcome := p.run rom chosenSeed
  if p.verbose then logged (p.log rom outcome) (answer outcome) else answer outcome

/-- What has been logged when a file that is there is not to be read. -/
def logBefore (p : Plan) : String := if p.verbose then startLog p.path.text p.ticks else ""

/-- How a planned run ends, given the contents of its file or why there are none. -/
def conclude (p : Plan) (file : Except Obstacle (List Byte)) (chosenSeed : Int) : Outcome :=
  match file with
  | .error .missing => .ofUsageError (.romNotFound p.path.text)
  | .error (.lookupRefused e) => .breakdown "" (.fileRefused e p.path.text)
  | .error (.readRefused e) => .breakdown p.logBefore (.fileRefused e p.path.text)
  | .ok rom => .answer (p.reply rom chosenSeed)

end Plan

section

variable {ε : Type} (v : Validator ε)

/-- How a command line ends as far as that is settled without a file, or else the plan. -/
def prepare (argv : List String) : Except Outcome Plan :=
  match read argv with
  | .error e => .error (.ofUsageError e)
  | .ok .help => .error (.answer .help)
  | .ok (.run a) => a.plan v

/-- How a command line ends; `v` makes the options, `file` gives the contents of files, and
`chosenSeed` is the seed for a run whose command line names none. -/
def respond (argv : List String) (file : Path → Except Obstacle (List Byte)) (chosenSeed : Int) :
    Outcome :=
  match prepare v argv with
  | .error outcome => outcome
  | .ok p => p.conclude (file p.path) chosenSeed

end

/-- A verbose run has the code and the printed text of the run without its log. -/
theorem reply_verbose (p : Plan) (rom : List Byte) (chosenSeed : Int) :
    (p.reply rom chosenSeed).code =
        (({ p with verbose := false } : Plan).reply rom chosenSeed).code ∧
      (p.reply rom chosenSeed).stdout =
        (({ p with verbose := false } : Plan).reply rom chosenSeed).stdout := by
  simp only [Plan.reply]
  split <;> exact ⟨rfl, rfl⟩

end ChipEight.CommandLine
