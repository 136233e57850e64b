/-
# `ChipEight.Machine.Execute` — the effect of one instruction

`apply` gives the machine after an instruction whose word has already been
fetched, so the program counter stands behind the word.  `execute` starts from a
word and stops with a `Fault` if its slot is unassigned; a `Halt` is a fault
together with the machine as it was left.

**Proved here.**

    execution fails exactly on unassigned words, and changes nothing    (`execute_eq_error_iff`)
-/
import ChipEight.Font
import ChipEight.Instruction.Decode
import ChipEight.Machine.Basic

namespace ChipEight

/-- An unassigned word and the address it was fetched from. -/
structure Fault where
  word : Word
  address : Address
  deriving DecidableEq, Repr

/-- A fault and the machine it leaves behind. -/
structure Halt where
  fault : Fault
  machine : Machine

namespace Machine

/-! ## Control flow -/

/-- The program counter one word further on. -/
def skipNext (m : Machine) : Machine := { m with pc := (m.pc + 2) % 4096 }

/-- The program counter one word back. -/
def rewind (m : Machine) : Machine := { m with pc := (m.pc - 2) % 4096 }

/-- Whether a condition holds. -/
def holds (m : Machine) : Condition → Bool
  | .isByte x b => m.reg x == b
  | .notByte x b => m.reg x != b
  | .same x y => m.reg x == m.reg y
  | .differ x y => m.reg x != m.reg y
  | .held x => m.keypad.isHeld (m.reg x).toNat
  | .free x => !m.keypad.isHeld (m.reg x).toNat

/-- Keeps the program counter in the current slot, moves to the next slot, and goes on at
`target`. -/
def callAt (m : Machine) (target : Address) : Machine :=
  { m with
    stack := m.stack.set (residue 16 m.sp) m.pc (residue 16 m.sp).isLt
    sp := (m.sp + 1) % 16
    pc := target.val }

/-- Moves back to the slot before and goes on at the address kept there. -/
def resume (m : Machine) : Machine :=
  let slot := residue 16 (m.sp - 1)
  { m with sp := slot.val, pc := m.stack.get slot }

/-! ## Registers -/

/-- Combines two registers into the first.  The flag, if there is one, is stored before the
result, so the result wins when the first register is the flag register. -/
def combineInto (m : Machine) (o : Operation) (x y : Register) : Machine :=
  let a := m.reg x
  let b := m.reg y
  match o.flag? a b with
  | none => m.setReg x (o.result a b)
  | some f => (m.setFlag f).setReg x (o.result a b)

/-- Draws a random byte and puts its masked bits in a register. -/
def randomInto (m : Machine) (x : Register) (mask : Byte) : Machine :=
  let (b, source) := m.source.next
  { m with source }.setReg x (b &&& mask)

/-- Puts the lowest held key in a register; with no key held, goes back to wait at the same
word. -/
def awaitKeyInto (m : Machine) (x : Register) : Machine :=
  match m.keypad.lowest? with
  | some key => m.setReg x (BitVec.ofNat 8 key)
  | none => m.rewind

/-! ## Screen and memory -/

/-- Draws the `n` bytes at the index, with the left edge given by one register and the top by
another, and flags whether a lit pixel went out. -/
def drawSprite (m : Machine) (x y : Register) (n : Fin 16) : Machine :=
  let sprite := m.memory.range m.index n.val
  let column := (m.reg x).toNat % 64
  let top := (m.reg y).toNat % 32
  let (screen, erased) := m.screen.draw column top sprite
  { m with screen }.setFlag erased

/-- Stores the hundreds, tens and ones of a register at the index. -/
def storeDecimal (m : Machine) (x : Register) : Machine :=
  let v := (m.reg x).toNat
  let digits := [v / 100, v / 10 % 10, v % 10].map fun d => BitVec.ofNat 8 d
  { m with memory := m.memory.load digits m.index }

/-- The contents of the registers 0 to `x`. -/
def regsUpTo (m : Machine) (x : Register) : List Byte := m.registers.toList.take (x.val + 1)

/-- Stores the registers 0 to `x` at the index. -/
def dumpUpTo (m : Machine) (x : Register) : Machine :=
  { m with memory := m.memory.load (m.regsUpTo x) m.index }

/-- Loads the registers 0 to `x` from the index. -/
def fillUpTo (m : Machine) (x : Register) : Machine :=
  { m with
    registers := Vector.ofFn fun r : Register =>
      if r ≤ x then m.memory.read (m.index + r.val) else m.reg r }

/-! ## Instructions and words -/

/-- The machine after an instruction. -/
def apply (m : Machine) : Instruction → Machine
  | .clear => { m with screen := .blank }
  | .ret => m.resume
  | .jump target => { m with pc := target.val }
  | .call target => m.callAt target
  | .skip c => if m.holds c then m.skipNext else m
  | .put x b => m.setReg x b
  | .bump x b => m.setReg x (m.reg x + b)
  | .combine o x y => m.combineInto o x y
  | .point target => { m with index := target.val }
  | .jumpOffset target => { m with pc := ((m.reg 0).toNat + target.val) % 4096 }
  | .random x mask => m.randomInto x mask
  | .draw x y n => m.drawSprite x y n
  | .readDelay x => m.setReg x (BitVec.ofInt 8 m.delay)
  | .awaitKey x => m.awaitKeyInto x
  | .setDelay x => { m with delay := (m.reg x).toNat }
  | .setSound x => { m with sound := (m.reg x).toNat }
  | .advance x => { m with index := (m.index + (m.reg x).toNat) % 4096 }
  | .glyph x => { m with index := (Font.address (m.reg x).toNat).val }
  | .decimal x => m.storeDecimal x
  | .dump x => m.dumpUpTo x
  | .fill x => m.fillUpTo x

/-- The fault that a word raises: its address is one word before the program counter. -/
def faultAt (m : Machine) (w : Word) : Fault := ⟨w, residue 4096 (m.pc - 2)⟩

/-- Carries out a decoded word; without an instruction there is a fault and the machine stays as
it is. -/
def carryOut (m : Machine) (w : Word) : Option Instruction → Except Halt Machine
  | some i => .ok (m.apply i)
  | none => .error ⟨m.faultAt w, m⟩

/-- Executes a word that has been fetched. -/
def execute (m : Machine) (w : Word) : Except Halt Machine := m.carryOut w w.decode

/-- Executes a word of one of the groups 0, 8, E and F. -/
def executeGroup (m : Machine) (w : Word) : Except Halt Machine := m.carryOut w w.decodeGroup

/-- Execution fails exactly on the unassigned words, with their fault, and leaves the machine
alone. -/
theorem execute_eq_error_iff (m : Machine) (w : Word) (h : Halt) :
    m.execute w = .error h ↔ w.decode = none ∧ h = ⟨m.faultAt w, m⟩ := by
  unfold execute carryOut
  split
  · next hi => simp [hi]
  · next hn => simp [hn, eq_comm]

/-- On a grouped word both ways of executing agree. -/
theorem executeGroup_eq_execute (m : Machine) {w : Word} (h : w.isGrouped = true) :
    m.executeGroup w = m.execute w := by
  unfold executeGroup execute
  rw [Word.decode_eq_decodeGroup h]

end Machine

end ChipEight
