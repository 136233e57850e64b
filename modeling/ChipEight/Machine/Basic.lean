/-
# `ChipEight.Machine.Basic` — the state of the machine

Registers and memory cells are bytes.  Index, program counter, stack entries,
stack pointer and timers are integers: a host may put any integer there, and
each instruction says itself where it reduces.  A state in which all of them
are in range is `WellFormed`.

**Proved here.**

    what a register holds after one is set    (`reg_setReg`)
    the blank machine is well-formed          (`wellFormed_blank`)
-/
import ChipEight.Keypad
import ChipEight.Memory
import ChipEight.Random.Source
import ChipEight.Screen

namespace ChipEight

/-- The whole state of the machine. -/
structure Machine where
  registers : Vector Byte 16
  memory : Memory
  /-- Return addresses, used round and round. -/
  stack : Vector Int 16
  keypad : Keypad
  screen : Screen
  index : Int
  /-- The program counter. -/
  pc : Int
  /-- The stack pointer: the slot that the next call writes. -/
  sp : Int
  /-- The delay timer. -/
  delay : Int
  /-- The sound timer. -/
  sound : Int
  source : RandomSource

namespace Machine

/-- Everything zero, dark and released. -/
def blank (source : RandomSource) : Machine where
  registers := Vector.replicate 16 0
  memory := .zero
  stack := Vector.replicate 16 0
  keypad := .empty
  screen := .blank
  index := 0
  pc := 0
  sp := 0
  delay := 0
  sound := 0
  source := source

/-! ## Registers -/

/-- The register that receives flags. -/
def flagRegister : Register := 15

/-- The contents of a register. -/
def reg (m : Machine) (x : Register) : Byte := m.registers[x]

/-- Puts a byte in a register. -/
def setReg (m : Machine) (x : Register) (b : Byte) : Machine :=
  { m with registers := m.registers.set x b }

/-- Puts 1 or 0 in the flag register. -/
def setFlag (m : Machine) (f : Bool) : Machine := m.setReg flagRegister (if f then 1 else 0)

/-- The contents of the flag register. -/
def flag (m : Machine) : Byte := m.reg flagRegister

/-- A register holds what was last put in it. -/
theorem reg_setReg (m : Machine) (x y : Register) (b : Byte) :
    (m.setReg x b).reg y = if x = y then b else m.reg y := by
  simp only [reg, setReg, Fin.getElem_fin, Vector.getElem_set, Fin.ext_iff]

/-! ## What a host may do -/

/-- Sets a register from integers: the number is taken modulo 16, the value modulo 256. -/
def setRegister (m : Machine) (number value : Int) : Machine :=
  m.setReg (residue 16 number) (BitVec.ofInt 8 value)

/-- Presses a key. -/
def press (m : Machine) (key : Int) : Machine := { m with keypad := m.keypad.press key }

/-- Lets go of a key. -/
def release (m : Machine) (key : Int) : Machine := { m with keypad := m.keypad.release key }

/-- Holds exactly the listed keys. -/
def setKeys (m : Machine) (keys : List Int) : Machine := { m with keypad := .hold keys }

/-- Writes a byte of memory. -/
def write (m : Machine) (addr value : Int) : Machine :=
  { m with memory := m.memory.write addr value }

/-- Loads bytes into memory. -/
def loadBytes (m : Machine) (data : List Byte) (base : Int) : Machine :=
  { m with memory := m.memory.load data base }

/-! ## States in range -/

/-- Index, program counter and stack entries are addresses, the stack pointer names a slot, and
the timers are bytes. -/
structure WellFormed (m : Machine) : Prop where
  stack : ∀ slot : Fin 16, 0 ≤ m.stack[slot] ∧ m.stack[slot] < 4096
  index : 0 ≤ m.index ∧ m.index < 4096
  pc : 0 ≤ m.pc ∧ m.pc < 4096
  sp : 0 ≤ m.sp ∧ m.sp < 16
  delay : 0 ≤ m.delay ∧ m.delay < 256
  sound : 0 ≤ m.sound ∧ m.sound < 256

theorem wellFormed_blank (source : RandomSource) : (blank source).WellFormed where
  stack slot := by simp [blank]
  index := by simp [blank]
  pc := by simp [blank]
  sp := by simp [blank]
  delay := by simp [blank]
  sound := by simp [blank]

end Machine

end ChipEight
