/-
# `ChipEight.Run` — a headless run of a ROM

A ROM is loaded, some keys are held, and a number of ticks is run, each a cycle
of the machine.  The first fault ends the run; its tick does not count.  If
asked for, the ticks are run step by step instead, and the instructions that
completed are recorded with the addresses they came from, up to a limit; the
limit does not end the run.

**Proved here.**

    recording changes nothing else        (`Observed.step_machine`)
-/
import ChipEight.Machine.Cycle
import ChipEight.Machine.Load
import ChipEight.Options.Basic

namespace ChipEight

/-- A completed instruction: where its word was and what it was. -/
structure Entry where
  address : Int
  word : Word
  deriving DecidableEq, Repr

/-- A machine under observation, with the entries recorded so far. -/
structure Observed where
  machine : Machine
  trace : Array Entry

namespace Observed

/-- Records an entry if there is room. -/
def record (room : Nat) (trace : Array Entry) (entry : Entry) : Array Entry :=
  if trace.size < room then trace.push entry else trace

/-- One step; the entry is recorded once the instruction has completed. -/
def step (room : Nat) (o : Observed) : Except (Fault × Observed) Observed :=
  let entry : Entry := ⟨o.machine.pc, o.machine.word⟩
  match o.machine.step with
  | .ok next => .ok ⟨next, record room o.trace entry⟩
  | .error halt => .error (halt.fault, ⟨halt.machine, o.trace⟩)

/-- Several steps, up to a fault. -/
def steps (room : Nat) : Nat → Observed → Except (Fault × Observed) Observed
  | 0, o => .ok o
  | n + 1, o =>
      match o.step room with
      | .ok next => steps room n next
      | .error stop => .error stop

/-- One tick step by step: a batch of steps and the count-down of the timers. -/
def tick (room batch : Nat) (o : Observed) : Except (Fault × Observed) Observed :=
  match o.steps room batch with
  | .ok last => .ok { last with machine := last.machine.decay }
  | .error stop => .error stop

/-- One tick without recording. -/
def cycle (batch : Int) (o : Observed) : Except (Fault × Observed) Observed :=
  match o.machine.cycle batch with
  | .ok next => .ok { o with machine := next }
  | .error halt => .error (halt.fault, { o with machine := halt.machine })

/-- Under observation a machine does what it does otherwise. -/
theorem step_machine (room : Nat) (o : Observed) :
    (match o.step room with
      | .ok next => .ok next.machine
      | .error (fault, left) => .error ⟨fault, left.machine⟩) = o.machine.step := by
  unfold step
  cases o.machine.step <;> rfl

end Observed

/-- How a run ended. -/
structure Run where
  machine : Machine
  /-- How many ticks were completed. -/
  ticks : Nat
  trace : Array Entry
  fault : Option Fault

namespace Run

/-- One tick, recorded or not. -/
def tick (options : Options) (o : Observed) : Except (Fault × Observed) Observed :=
  if options.trace then o.tick options.traceLimit.toNat options.instructionsPerTick.toNat
  else o.cycle options.instructionsPerTick

/-- Runs up to `n` more ticks after `done` of them. -/
def onward (options : Options) : Nat → Nat → Observed → Run
  | 0, done, o => ⟨o.machine, done, o.trace, none⟩
  | n + 1, done, o =>
      match tick options o with
      | .ok next => onward options n (done + 1) next
      | .error (fault, left) => ⟨left.machine, done, left.trace, some fault⟩

/-- The machine that a run starts with. -/
def start (rom : List Byte) (options : Options) (keys : List Int) (chosenSeed : Int) :
    Except RomTooLarge Machine :=
  (Machine.load rom (.seeded (options.seedOr chosenSeed))).map fun m => m.setKeys keys

/-- Runs a ROM for a number of ticks with the given keys held; `chosenSeed` is the seed that the
host chooses if the options name none. -/
def ofRom (rom : List Byte) (ticks : Int) (options : Options) (keys : List Int)
    (chosenSeed : Int) : Except RomTooLarge Run :=
  (start rom options keys chosenSeed).map fun m => onward options ticks.toNat 0 ⟨m, #[]⟩

/-- The report of the fault, in the tick that it cut short. -/
def report (r : Run) : Option Report := r.fault.map fun f => f.report r.ticks

/-- The one-word outcome. -/
def status (r : Run) : String := if r.fault.isSome then "error" else "ok"

end Run

end ChipEight
