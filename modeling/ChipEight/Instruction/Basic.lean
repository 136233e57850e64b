/-
# `ChipEight.Instruction.Basic` — the instruction set

Instructions with common shape are gathered: the six skips share one
constructor with a `Condition`, the nine register operations one with an
`Operation`, whose result and flag are functions of two bytes.

Each instruction has a pattern, its word written as four characters: digits that
select it as they are, `x` and `y` for registers, `n` for a small number, `kk`
for a byte and `nnn` for an address.
-/
import ChipEight.Word

namespace ChipEight

/-! ## Register operations -/

/-- What an operation makes of two registers. -/
inductive Operation where
  | copy
  | or
  | and
  | xor
  | add
  | sub
  | shiftRight
  | subFrom
  | shiftLeft
  deriving DecidableEq, Repr

namespace Operation

/-- The byte stored in the first register. -/
def result : Operation → Byte → Byte → Byte
  | .copy, _, b => b
  | .or, a, b => a ||| b
  | .and, a, b => a &&& b
  | .xor, a, b => a ^^^ b
  | .add, a, b => a + b
  | .sub, a, b => a - b
  | .shiftRight, a, _ => a >>> 1
  | .subFrom, a, b => b - a
  | .shiftLeft, a, _ => a <<< 1

/-- The flag that goes with the result: a carry, the absence of a borrow, or the bit shifted out.
The first four operations have none. -/
def flag? : Operation → Byte → Byte → Option Bool
  | .copy, _, _ | .or, _, _ | .and, _, _ | .xor, _, _ => none
  | .add, a, b => some (255 < a.toNat + b.toNat)
  | .sub, a, b => some (b < a)
  | .shiftRight, a, _ => some (a.getLsbD 0)
  | .subFrom, a, b => some (a < b)
  | .shiftLeft, a, _ => some a.msb

/-- The last digit of the operation's word. -/
def digit : Operation → Nat
  | .copy => 0x0
  | .or => 0x1
  | .and => 0x2
  | .xor => 0x3
  | .add => 0x4
  | .sub => 0x5
  | .shiftRight => 0x6
  | .subFrom => 0x7
  | .shiftLeft => 0xE

/-- The operation with a given last digit. -/
def ofDigit? : Nat → Option Operation
  | 0x0 => some .copy
  | 0x1 => some .or
  | 0x2 => some .and
  | 0x3 => some .xor
  | 0x4 => some .add
  | 0x5 => some .sub
  | 0x6 => some .shiftRight
  | 0x7 => some .subFrom
  | 0xE => some .shiftLeft
  | _ => none

/-- Reading the digit of an operation gives it back. -/
theorem ofDigit?_digit (o : Operation) : ofDigit? o.digit = some o := by cases o <;> rfl

end Operation

/-! ## Conditions -/

/-- When the next instruction is skipped. -/
inductive Condition where
  /-- The register equals the byte. -/
  | isByte (x : Register) (b : Byte)
  /-- The register differs from the byte. -/
  | notByte (x : Register) (b : Byte)
  /-- The registers are equal. -/
  | same (x y : Register)
  /-- The registers differ. -/
  | differ (x y : Register)
  /-- The key named by the register is held. -/
  | held (x : Register)
  /-- The key named by the register is not held. -/
  | free (x : Register)
  deriving DecidableEq, Repr

/-! ## Instructions -/

/-- One instruction with its operands. -/
inductive Instruction where
  /-- Darkens the screen. -/
  | clear
  /-- Comes back from a call. -/
  | ret
  /-- Goes on at an address. -/
  | jump (target : Address)
  /-- Calls the routine at an address. -/
  | call (target : Address)
  /-- Skips the next instruction under a condition. -/
  | skip (c : Condition)
  /-- Puts a byte in a register. -/
  | put (x : Register) (b : Byte)
  /-- Adds a byte to a register, without a flag. -/
  | bump (x : Register) (b : Byte)
  /-- Combines two registers into the first. -/
  | combine (o : Operation) (x y : Register)
  /-- Sets the index. -/
  | point (target : Address)
  /-- Goes on at an address plus register 0. -/
  | jumpOffset (target : Address)
  /-- Puts a random byte, masked, in a register. -/
  | random (x : Register) (mask : Byte)
  /-- Draws the sprite of `n` rows that lies at the index. -/
  | draw (x y : Register) (n : Fin 16)
  /-- Reads the delay timer. -/
  | readDelay (x : Register)
  /-- Waits for a key. -/
  | awaitKey (x : Register)
  /-- Sets the delay timer. -/
  | setDelay (x : Register)
  /-- Sets the sound timer. -/
  | setSound (x : Register)
  /-- Moves the index on by a register. -/
  | advance (x : Register)
  /-- Points the index at the glyph of a digit. -/
  | glyph (x : Register)
  /-- Stores the three decimal digits of a register at the index. -/
  | decimal (x : Register)
  /-- Stores the registers up to `x` at the index. -/
  | dump (x : Register)
  /-- Loads the registers up to `x` from the index. -/
  | fill (x : Register)
  deriving DecidableEq, Repr

/-- The pattern of an operation's word. -/
def Operation.pattern : Operation → String
  | .copy => "8xy0"
  | .or => "8xy1"
  | .and => "8xy2"
  | .xor => "8xy3"
  | .add => "8xy4"
  | .sub => "8xy5"
  | .shiftRight => "8xy6"
  | .subFrom => "8xy7"
  | .shiftLeft => "8xyE"

/-- The pattern of a skip's word. -/
def Condition.pattern : Condition → String
  | .isByte _ _ => "3xkk"
  | .notByte _ _ => "4xkk"
  | .same _ _ => "5xy0"
  | .differ _ _ => "9xy0"
  | .held _ => "Ex9E"
  | .free _ => "ExA1"

/-- The pattern of an instruction's word. -/
def Instruction.pattern : Instruction → String
  | .clear => "00E0"
  | .ret => "00EE"
  | .jump _ => "1nnn"
  | .call _ => "2nnn"
  | .skip c => c.pattern
  | .put _ _ => "6xkk"
  | .bump _ _ => "7xkk"
  | .combine o _ _ => o.pattern
  | .point _ => "Annn"
  | .jumpOffset _ => "Bnnn"
  | .random _ _ => "Cxkk"
  | .draw _ _ _ => "Dxyn"
  | .readDelay _ => "Fx07"
  | .awaitKey _ => "Fx0A"
  | .setDelay _ => "Fx15"
  | .setSound _ => "Fx18"
  | .advance _ => "Fx1E"
  | .glyph _ => "Fx29"
  | .decimal _ => "Fx33"
  | .dump _ => "Fx55"
  | .fill _ => "Fx65"

end ChipEight
