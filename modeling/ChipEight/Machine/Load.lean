/-
# `ChipEight.Machine.Load` — a machine with a ROM in memory

The font lies at address 80, the ROM at 512, and the program counter starts
there.  A ROM must end below address 4096; if it comes from a file, there must
be such a file.

**Proved here.**

    which ROMs are refused                      (`load_eq_error_iff`)
    a ROM that fits is found in the machine     (`load_of_fits`)
-/
import ChipEight.Report
import ChipEight.Text.Quoted

namespace ChipEight

/-- Why no machine could be made from a ROM file. -/
inductive LoadError where
  | missingFile (name : String)
  | tooLarge (e : RomTooLarge)
  deriving DecidableEq, Repr

/-- The description of a load error. -/
def LoadError.message : LoadError → String
  | .missingFile name => "[Errno 2] No such file or directory: " ++ Text.quoted name.toList
  | .tooLarge e => e.report.message

namespace Machine

/-- A blank machine with font and ROM in memory, ready to start, whatever the ROM's size. -/
def withRom (rom : List Byte) (source : RandomSource) : Machine :=
  let blank := Machine.blank source
  { blank with
    memory := (blank.memory.load Font.bytes Font.base).load rom romStart
    pc := romStart }

/-- Loads a ROM, unless it is too large. -/
def load (rom : List Byte) (source : RandomSource) : Except RomTooLarge Machine :=
  if romCapacity < rom.length then .error ⟨rom.length⟩ else .ok (withRom rom source)

/-- A ROM is refused exactly when it has more bytes than there is room for. -/
theorem load_eq_error_iff (rom : List Byte) (source : RandomSource) (e : RomTooLarge) :
    load rom source = .error e ↔ romCapacity < rom.length ∧ e = ⟨rom.length⟩ := by
  unfold load
  split
  · next h => simp [h, eq_comm]
  · next h => simp [h]

theorem load_of_fits {rom : List Byte} (h : rom.length ≤ romCapacity) (source : RandomSource) :
    load rom source = .ok (withRom rom source) := by
  rw [load, if_neg (Nat.not_lt.2 h)]

/-- Loads the ROM that a file holds, if there is such a file. -/
def loadFile (name : String) (contents : Option (List Byte)) (source : RandomSource) :
    Except LoadError Machine :=
  match contents with
  | none => .error (.missingFile name)
  | some rom => (load rom source).mapError .tooLarge

end Machine

end ChipEight
