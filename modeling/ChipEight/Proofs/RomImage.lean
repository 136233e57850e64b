/-
# `ChipEight.Proofs.RomImage` — a block of bytes in memory, and the words of a ROM

**Proved here.**

    a block that is not longer than the memory is read back byte by byte     (`read_load`)
    and of a longer one its last 4096 bytes                                  (`read_load_of_last`)
    outside the block the memory is as it was                                (`read_load_of_outside`)
    inside it the memory is what the bytes make it, whatever it was before   (`read_load_congr`)
    so the word at an address inside a loaded ROM is the one written there   (`word_withRom`)
-/
import ChipEight.Machine.Cycle
import ChipEight.Machine.Load

namespace ChipEight

namespace Memory

/-- A memory is what is read from it. -/
theorem eq_of_read {mem mem' : Memory} (h : ∀ addr : Int, mem.read addr = mem'.read addr) :
    mem = mem' := by
  obtain ⟨cells⟩ := mem
  obtain ⟨cells'⟩ := mem'
  congr 1
  refine Vector.ext ?_
  intro k hk
  have hcell : residue 4096 (k : Int) = ⟨k, hk⟩ := residue_natCast_of_fin ⟨k, hk⟩
  have hread := h k
  rwa [Memory.read, Memory.read, hcell] at hread

theorem read_load_of_outside (bytes : List Byte) : ∀ (mem : Memory) (base query : Int),
    (∀ k : Nat, k < bytes.length → (base + k) % 4096 ≠ query % 4096) →
    (mem.load bytes base).read query = mem.read query := by
  induction bytes with
  | nil => exact fun _ _ _ _ => rfl
  | cons b bytes ih =>
      intro mem base query h
      have hfirst : base % 4096 ≠ query % 4096 := by
        have hzero := h 0 (Nat.succ_pos _)
        rwa [Int.natCast_zero, Int.add_zero] at hzero
      rw [load, ih, read_set, if_neg hfirst]
      intro k hk
      have hsucc := h (k + 1) (Nat.succ_lt_succ hk)
      rwa [show base + 1 + (k : Int) = base + ((k + 1 : Nat) : Int) by omega]

/-- A block longer than the memory overwrites its own beginning, but none of its last 4096 bytes. -/
theorem read_load_of_last (bytes : List Byte) : ∀ (mem : Memory) (base : Int) (k : Nat)
    (hk : k < bytes.length), bytes.length ≤ k + 4096 →
    (mem.load bytes base).read (base + k) = bytes[k] := by
  induction bytes with
  | nil => exact fun _ _ k hk => absurd hk (Nat.not_lt_zero k)
  | cons b bytes ih =>
      intro mem base k hk hlast
      rw [List.length_cons] at hlast
      cases k with
      | zero =>
          rw [load, read_load_of_outside, read_set, if_pos (by simp)]
          · rfl
          · intro k hk
            omega
      | succ k =>
          rw [load, show base + ((k + 1 : Nat) : Int) = base + 1 + (k : Int) by omega]
          exact ih (mem.set base b) (base + 1) k (Nat.lt_of_succ_lt_succ hk) (by omega)

theorem read_load (bytes : List Byte) (mem : Memory) (base : Int) (k : Nat)
    (hk : k < bytes.length) (hlength : bytes.length ≤ 4096) :
    (mem.load bytes base).read (base + k) = bytes[k] :=
  read_load_of_last bytes mem base k hk (Nat.le_trans hlength (Nat.le_add_left 4096 k))

/-- The cells at `n` consecutive addresses from `base` on. -/
def block (base : Int) (n : Nat) : List Address :=
  (List.range n).map fun k : Nat => residue 4096 (base + k)

theorem mem_block_iff {base : Int} {n : Nat} {a : Address} :
    a ∈ block base n ↔ ∃ k : Nat, k < n ∧ residue 4096 (base + k) = a := by
  simp only [block, List.mem_map, List.mem_range]

theorem block_succ (base : Int) (n : Nat) :
    block base (n + 1) = residue 4096 base :: block (base + 1) n := by
  have hshift : ∀ k : Nat, base + ((k + 1 : Nat) : Int) = base + 1 + (k : Int) := by
    intro k
    omega
  simp only [block, List.range_succ_eq_map, List.map_cons, List.map_map, Function.comp_def,
    Nat.succ_eq_add_one, hshift, Int.natCast_zero, Int.add_zero]

theorem read_load_of_not_mem_block {bytes : List Byte} (mem : Memory) {base query : Int}
    (h : residue 4096 query ∉ block base bytes.length) :
    (mem.load bytes base).read query = mem.read query := by
  refine read_load_of_outside bytes mem base query ?_
  intro k hk heq
  exact h (mem_block_iff.2 ⟨k, hk, (residue_eq_residue_iff 4096 _ _).2 heq⟩)

/-- By induction on the bytes: a cell outside the rest of the block was written already or is the
same in both memories. -/
theorem read_load_congr (bytes : List Byte) : ∀ {mem mem' : Memory} {base base' query : Int},
    base % 4096 = base' % 4096 →
    residue 4096 query ∈ block base bytes.length ∨ mem.read query = mem'.read query →
    (mem.load bytes base).read query = (mem'.load bytes base').read query := by
  induction bytes with
  | nil =>
      rintro mem mem' base base' query - (hmem | hread)
      · cases hmem
      · exact hread
  | cons b bytes ih =>
      intro mem mem' base base' query hbase hquery
      rw [List.length_cons, block_succ, List.mem_cons] at hquery
      refine ih (by omega) ?_
      rw [read_set, read_set, ← hbase]
      rcases hquery with (hfirst | hrest) | hread
      · have hhit : base % 4096 = query % 4096 := (residue_eq_residue_iff 4096 _ _).1 hfirst.symm
        exact .inr (by rw [if_pos hhit, if_pos hhit])
      · exact .inl hrest
      · exact .inr (by rw [hread])

end Memory

namespace Machine

theorem word_withRom {m : Machine} {rom : List Byte} {source : RandomSource}
    (hmemory : m.memory = (withRom rom source).memory) (hrom : rom.length ≤ romCapacity) {k : Nat}
    (hpc : m.pc = romStart + k) (hk : k + 1 < rom.length) {w : Word}
    (hw : Word.ofBytes rom[k] rom[k + 1] = w) : m.word = w := by
  have hlength : rom.length ≤ 4096 := Nat.le_trans hrom (by decide)
  have hread : ∀ i (hi : i < rom.length), m.memory.read (romStart + i) = rom[i] := by
    intro i hi
    rw [hmemory]
    exact Memory.read_load rom _ _ i hi hlength
  have hlow : m.memory.read (romStart + k + 1) = rom[k + 1] := by
    rw [Int.add_assoc]
    exact hread (k + 1) hk
  rw [word, hpc, hread k (Nat.lt_of_succ_lt hk), hlow, hw]

end Machine

end ChipEight
