/-
# `ChipEight.Report` — errors as a host sees them

A report names the kind of an error, describes it, and says at which address and
in which tick it arose; the report of an unassigned word also carries the word.
-/
import ChipEight.Machine.Execute
import ChipEight.Text.Numeral

namespace ChipEight

/-- The kinds of errors. -/
inductive ErrorKind where
  | general
  | romTooLarge
  | invalidOpcode
  deriving DecidableEq, Repr

/-- The name under which a kind is reported. -/
def ErrorKind.name : ErrorKind → String
  | .general => "Chip8Error"
  | .romTooLarge => "RomTooLarge"
  | .invalidOpcode => "InvalidOpcode"

/-- A structured error. -/
structure Report where
  kind : ErrorKind
  message : String
  address : Int
  tick : Int
  /-- The unassigned word, if that is what went wrong. -/
  word : Option Int
  deriving DecidableEq, Repr

/-- The report of an unassigned word, which any integer may stand for. -/
def Report.invalidOpcode (word address tick : Int) : Report where
  kind := .invalidOpcode
  message := "Invalid opcode: 0x" ++ Text.hexInt 4 word
  address := address
  tick := tick
  word := some word

/-- A report of another kind. -/
def Report.other (kind : ErrorKind) (message : String) (address tick : Int) : Report where
  kind := kind
  message := message
  address := address
  tick := tick
  word := none

/-- A fault as reported in a given tick. -/
def Fault.report (f : Fault) (tick : Nat) : Report :=
  .invalidOpcode f.word.toNat f.address.val tick

/-- A fault as reported when the host gave an integer for the word: only its low 16 bits were
executed, but the report shows all of it. -/
def Fault.reportOf (f : Fault) (given : Int) (tick : Nat) : Report :=
  .invalidOpcode given f.address.val tick

/-- A ROM with too many bytes. -/
structure RomTooLarge where
  size : Nat
  deriving DecidableEq, Repr

/-- Where a ROM is loaded and started. -/
def romStart : Nat := 0x200

/-- The number of bytes between the start of a ROM and the end of memory. -/
def romCapacity : Nat := 4096 - romStart

/-- The report of a ROM that does not fit. -/
def RomTooLarge.report (e : RomTooLarge) : Report :=
  .other .romTooLarge
    ("ROM is " ++ Text.decimal e.size ++ " bytes, maximum is " ++ Text.decimal romCapacity)
    romStart 0

theorem decimal_romCapacity : Text.decimal romCapacity = "3584" := by
  simp [Text.decimal, Text.digits, Text.digitChar, romCapacity, romStart]

end ChipEight
