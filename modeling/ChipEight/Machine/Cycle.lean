/-
# `ChipEight.Machine.Cycle` — fetching, stepping, and the ticks of a host

A step fetches the word at the program counter and executes it.  A cycle is what
a host does once per tick: a batch of steps, then both timers count down.  A
fault stops a cycle on the spot; the halt holds the machine as it is then, and
its timers have not counted down.

**Proved here.**

    steps compose                                   (`steps_add`)
    a cycle of no instruction is a count-down       (`cycle_of_nonpos`)
-/
import ChipEight.Machine.Execute

namespace ChipEight.Machine

/-- The big-endian word at the program counter. -/
def word (m : Machine) : Word :=
  .ofBytes (m.memory.read m.pc) (m.memory.read (m.pc + 1))

/-- The machine once its word is fetched: the program counter has moved on by two. -/
def fetched (m : Machine) : Machine := m.skipNext

/-- Fetches and executes one word. -/
def step (m : Machine) : Except Halt Machine := m.fetched.execute m.word

/-- Several steps in a row, up to a fault. -/
def steps : Nat → Machine → Except Halt Machine
  | 0, m => .ok m
  | n + 1, m =>
      match m.step with
      | .ok next => steps n next
      | .error halt => .error halt

/-- One less, but nothing less than zero is touched. -/
def countDown (t : Int) : Int := if 0 < t then t - 1 else t

/-- Both timers counted down. -/
def decay (m : Machine) : Machine :=
  { m with delay := countDown m.delay, sound := countDown m.sound }

/-- One tick of a host: a batch of instructions, none if `n` is not positive, and one count-down
of the timers. -/
def cycle (m : Machine) (n : Int) : Except Halt Machine :=
  match m.steps n.toNat with
  | .ok last => .ok last.decay
  | .error halt => .error halt

/-- A run of `a + b` steps is a run of `a` steps followed by one of `b`. -/
theorem steps_add (a b : Nat) (m : Machine) :
    m.steps (a + b) = (m.steps a).bind (steps b) := by
  induction a generalizing m with
  | zero => rw [Nat.zero_add]; rfl
  | succ a ih =>
      rw [Nat.succ_add]
      simp only [steps]
      cases m.step with
      | ok next => exact ih next
      | error halt => rfl

theorem cycle_of_nonpos (m : Machine) {n : Int} (h : n ≤ 0) : m.cycle n = .ok m.decay := by
  unfold cycle
  rw [Int.toNat_of_nonpos h]
  rfl

end ChipEight.Machine
