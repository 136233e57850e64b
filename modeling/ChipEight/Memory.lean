/-
# `ChipEight.Memory` — 4 KiB of bytes with wrapping addresses

Every integer is an address: it stands for its class modulo 4096.  A block of
bytes is loaded one cell after the other, so a block longer than the memory
overwrites its own beginning.

**Proved here.**

    what a cell holds after one write       (`read_set`)
    an address and its shifts by 4096       (`read_congr`)
-/
import ChipEight.Residue
import ChipEight.Word

namespace ChipEight

/-- The contents of the 4096 cells. -/
structure Memory where
  cells : Vector Byte 4096

namespace Memory

/-- All cells zero. -/
def zero : Memory := ⟨Vector.replicate 4096 0⟩

/-- The byte at an address. -/
def read (m : Memory) (addr : Int) : Byte := m.cells.get (residue 4096 addr)

/-- Puts a byte at an address. -/
def set (m : Memory) (addr : Int) (b : Byte) : Memory :=
  ⟨m.cells.set (residue 4096 addr) b (residue 4096 addr).isLt⟩

/-- Puts an integer at an address; the cell keeps its value modulo 256. -/
def write (m : Memory) (addr value : Int) : Memory := m.set addr (BitVec.ofInt 8 value)

/-- Puts a block of bytes at consecutive addresses from `base` on, in order. -/
def load (m : Memory) : List Byte → Int → Memory
  | [], _ => m
  | b :: bs, base => (m.set base b).load bs (base + 1)

/-- The bytes at `length` consecutive addresses from `start` on; none for a negative length. -/
def range (m : Memory) (start length : Int) : List Byte :=
  (List.range length.toNat).map fun i : Nat => m.read (start + i)

/-- All cells in the order of their addresses. -/
def toList (m : Memory) : List Byte := m.cells.toList

/-- A write is seen at its own address, modulo 4096, and nowhere else. -/
theorem read_set (m : Memory) (addr : Int) (b : Byte) (query : Int) :
    (m.set addr b).read query = if addr % 4096 = query % 4096 then b else m.read query := by
  have h := residue_eq_residue_iff 4096 addr query
  simp only [read, set, get_eq_getElem, Vector.getElem_set]
  simp only [Fin.ext_iff] at h
  simp only [h]
  rfl

/-- Addresses that agree modulo 4096 name the same cell. -/
theorem read_congr (m : Memory) {a b : Int} (h : a % 4096 = b % 4096) : m.read a = m.read b := by
  have : residue 4096 a = residue 4096 b := (residue_eq_residue_iff 4096 a b).2 h
  simp only [read, this]

end Memory

end ChipEight
