/-
# `ChipEight.Word` — bytes, instruction words and the fields of a word

An instruction word has 16 bits, read as four hexadecimal digits `gxyn`:

    group   g        selects the family
    x, y    x, y     register numbers
    n       n        the low digit
    kk      yn       the low byte
    nnn     xyn      an address

The fields are given through the word's value, so that statements about them
are arithmetic.
-/

namespace ChipEight

/-- A byte: the contents of a register or of a memory cell. -/
abbrev Byte := BitVec 8

/-- An instruction word. -/
abbrev Word := BitVec 16

/-- The number of a register. -/
abbrev Register := Fin 16

/-- An address inside the 4 KiB memory. -/
abbrev Address := Fin 4096

namespace Word

/-- The word with the given high and low byte. -/
def ofBytes (high low : Byte) : Word := high ++ low

/-- The leading digit. -/
def group (w : Word) : Nat := w.toNat / 0x1000

/-- The second digit, as a register number. -/
def x (w : Word) : Register := ⟨w.toNat / 0x100 % 16, Nat.mod_lt _ (by decide)⟩

/-- The third digit, as a register number. -/
def y (w : Word) : Register := ⟨w.toNat / 0x10 % 16, Nat.mod_lt _ (by decide)⟩

/-- The last digit. -/
def n (w : Word) : Fin 16 := ⟨w.toNat % 16, Nat.mod_lt _ (by decide)⟩

/-- The low byte. -/
def kk (w : Word) : Byte := BitVec.ofNat 8 w.toNat

/-- The low three digits, as an address. -/
def nnn (w : Word) : Address := ⟨w.toNat % 4096, Nat.mod_lt _ (by decide)⟩

/-- A big-endian pair of bytes has the value of a two-digit number in base 256. -/
theorem toNat_ofBytes (high low : Byte) :
    (ofBytes high low).toNat = 256 * high.toNat + low.toNat := by
  simp only [ofBytes, BitVec.toNat_append, Nat.shiftLeft_eq]
  rw [Nat.mul_comm, Nat.two_pow_add_eq_or_of_lt low.isLt]

/-- The leading digit is a hexadecimal digit. -/
theorem group_lt (w : Word) : w.group < 16 := by
  have := w.isLt
  simp only [group]
  omega

end Word

end ChipEight
