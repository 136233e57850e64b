/-
# `ChipEight.Proofs.MemoryTransfer` — registers to memory and back

Three instructions move bytes between the registers and the memory at the index: a dump,
a fill and the decimal digits of one register.  Both that store put a block of bytes into
the memory, and as a block is shorter than the memory its addresses are different cells,
wherever the index stands.  So what one of them has stored a fill finds again, byte by
byte, and a dump of what a fill has loaded stores nothing new.

**Proved here.**

    a store puts the bytes where they belong, and nothing else    (`stored_load`)
    what a fill leaves in the registers                           (`filled_fillUpTo`)
    a fill finds what was stored                                  (`Stored.reg_fill`)
    so the three instructions agree on the layout                 (`execute_transfer`)
-/
import ChipEight.Proofs.Agreement
import ChipEight.Proofs.Words

namespace ChipEight.Machine

/-! ## Stores -/

/-- What a store of a block of bytes at the index leaves of a machine. -/
structure Stored (bytes : List Byte) (m m' : Machine) : Prop where
  inside : ∀ k (hk : k < bytes.length), m'.memory.read (m.index + k) = bytes[k]
  outside : ∀ addr : Int,
    (∀ k : Nat, k < bytes.length → (m.index + k) % 4096 ≠ addr % 4096) →
    m'.memory.read addr = m.memory.read addr
  elsewhere : { m' with memory := m.memory } = m

theorem stored_load {bytes : List Byte} (hlength : bytes.length ≤ 4096) (m : Machine) :
    Stored bytes m { m with memory := m.memory.load bytes m.index } where
  inside k hk := Memory.read_load bytes m.memory m.index k hk hlength
  outside := Memory.read_load_of_outside bytes m.memory m.index
  elsewhere := rfl

theorem Stored.index_eq {bytes : List Byte} {m m' : Machine} (h : Stored bytes m m') :
    m'.index = m.index := by
  rw [← h.elsewhere]

/-- Bytes that are there already change nothing. -/
theorem Stored.eq_of_read {bytes : List Byte} {m m' : Machine} (h : Stored bytes m m')
    (hread : ∀ k (hk : k < bytes.length), m.memory.read (m.index + k) = bytes[k]) : m' = m := by
  have hmemory : m'.memory = m.memory := by
    refine Memory.eq_of_read fun addr => ?_
    by_cases haddr : ∃ k : Nat, k < bytes.length ∧ (m.index + k) % 4096 = addr % 4096
    · obtain ⟨k, hk, hcell⟩ := haddr
      rw [← m'.memory.read_congr hcell, ← m.memory.read_congr hcell, h.inside k hk, hread k hk]
    · exact h.outside addr fun k hk hcell => haddr ⟨k, hk, hcell⟩
  calc
    m' = { m' with memory := m.memory } := by rw [← hmemory]
    _ = m := h.elsewhere

theorem getElem_regsUpTo (m : Machine) (x r : Register) (hr : r.val < (m.regsUpTo x).length) :
    (m.regsUpTo x)[r.val] = m.reg r := by
  simp only [regsUpTo, List.getElem_take, Vector.getElem_toList, reg, Fin.getElem_fin]

theorem stored_dumpUpTo (m : Machine) (x : Register) :
    Stored (m.regsUpTo x) m (m.dumpUpTo x) := by
  refine stored_load ?_ m
  have hx := x.isLt
  rw [length_regsUpTo]
  omega

/-! ## Fills -/

/-- What a fill of the registers 0 to `x` leaves of a machine. -/
structure Filled (x : Register) (m m' : Machine) : Prop where
  loaded : ∀ r, r ≤ x → m'.reg r = m.memory.read (m.index + r.val)
  others : ∀ r, x < r → m'.reg r = m.reg r
  elsewhere : { m' with registers := m.registers } = m

theorem filled_fillUpTo (m : Machine) (x : Register) : Filled x m (m.fillUpTo x) := by
  have hreg : ∀ r, (m.fillUpTo x).reg r =
      if r ≤ x then m.memory.read (m.index + r.val) else m.reg r := by
    intro r
    simp only [fillUpTo, reg, Fin.getElem_fin, Vector.getElem_ofFn]
  constructor
  · intro r hr
    rw [hreg, if_pos hr]
  · intro r hr
    rw [hreg, if_neg (Fin.not_le.2 hr)]
  · simp only [fillUpTo]

/-- It does not matter what else has happened since the store, as long as memory and index are as
the store has left them. -/
theorem Stored.reg_fill {bytes : List Byte} {m m' later last : Machine} (h : Stored bytes m m')
    (hmemory : later.memory = m'.memory) (hindex : later.index = m'.index) {y : Register}
    (hfill : Filled y later last) {r : Register} (hr : r ≤ y) (hlength : r.val < bytes.length) :
    last.reg r = bytes[r.val] := by
  rw [hfill.loaded r hr, hmemory, hindex, h.index_eq, h.inside r.val hlength]

/-- A dump of the registers that a fill has loaded. -/
theorem Filled.dumpUpTo {x : Register} {m m' : Machine} (h : Filled x m m') :
    m'.dumpUpTo x = m' := by
  have hmemory : m'.memory = m.memory := by rw [← h.elsewhere]
  have hindex : m'.index = m.index := by rw [← h.elsewhere]
  refine (m'.stored_dumpUpTo x).eq_of_read fun k hk => ?_
  have hlt : k < x.val + 1 := m'.length_regsUpTo x ▸ hk
  let r : Register := ⟨k, Nat.lt_of_lt_of_le hlt x.isLt⟩
  calc
    m'.memory.read (m'.index + k) = m.memory.read (m.index + r.val) := by rw [hmemory, hindex]
    _ = m'.reg r := (h.loaded r (Nat.le_of_lt_succ hlt)).symm
    _ = (m'.regsUpTo x)[k] := (m'.getElem_regsUpTo x r hk).symm

/-! ## Decimal digits -/

/-- The hundreds, tens and ones of a byte. -/
structure Digits (b h t u : Byte) : Prop where
  hundreds : h.toNat ≤ 9
  tens : t.toNat ≤ 9
  ones : u.toNat ≤ 9
  value : 100 * h.toNat + 10 * t.toNat + u.toNat = b.toNat

theorem exists_stored_storeDecimal (m : Machine) (x : Register) :
    ∃ h t u, Digits (m.reg x) h t u ∧ Stored [h, t, u] m (m.storeDecimal x) := by
  have hbyte := (m.reg x).isLt
  refine ⟨_, _, _, ⟨?_, ?_, ?_, ?_⟩, stored_load (by simp) m⟩
  all_goals
    simp only [BitVec.toNat_ofNat]
    omega

/-! ## The instructions -/

/-- What the words of group F that end in 55, 65 and 33 do, whatever the index is.  The first one
stores the registers up to its own.  While memory and index stay as they are, whatever becomes of
the registers, loading some or all of these gives back what they held, and the registers above keep
what they hold.  The second one loads them, and to store them again then changes nothing.  The third
one stores the decimal digits of its register, and loading three registers there gives the digits. -/
theorem execute_transfer {w : Word} (hw : w.group = 0xF) (m : Machine) :
    (w.kk.toNat = 0x55 → ∃ dumped, m.execute w = .ok dumped ∧
      Stored (m.regsUpTo w.x) m dumped ∧
      (∀ r, r ≤ w.x → dumped.memory.read (m.index + r.val) = m.reg r) ∧
      ∀ later : Machine, later.memory = dumped.memory → later.index = dumped.index →
        ∀ w' : Word, w'.group = 0xF → w'.kk.toNat = 0x65 → w'.x ≤ w.x →
          ∃ last, later.execute w' = .ok last ∧ Filled w'.x later last ∧
            ∀ r, r ≤ w'.x → last.reg r = m.reg r) ∧
    (w.kk.toNat = 0x65 → ∃ filled, m.execute w = .ok filled ∧ Filled w.x m filled ∧
      ∀ w' : Word, w'.group = 0xF → w'.kk.toNat = 0x55 → w'.x = w.x →
        filled.execute w' = .ok filled) ∧
    (w.kk.toNat = 0x33 → ∃ stored h t u, m.execute w = .ok stored ∧ Digits (m.reg w.x) h t u ∧
      Stored [h, t, u] m stored ∧
      ∀ later : Machine, later.memory = stored.memory → later.index = stored.index →
        ∀ w' : Word, w'.group = 0xF → w'.kk.toNat = 0x65 → w'.x = 2 →
          ∃ last, later.execute w' = .ok last ∧ Filled 2 later last ∧
            last.reg 0 = h ∧ last.reg 1 = t ∧ last.reg 2 = u) := by
  refine ⟨fun hkk => ?_, fun hkk => ?_, fun hkk => ?_⟩
  · have hstored := m.stored_dumpUpTo w.x
    have hlength := m.length_regsUpTo w.x
    refine ⟨_, execute_of_fits (i := .dump w.x) hw ⟨hkk, rfl⟩ m, hstored, fun r hr => ?_, ?_⟩
    · have hlt : r.val < (m.regsUpTo w.x).length := hlength ▸ Nat.lt_succ_of_le hr
      exact (hstored.inside r.val hlt).trans (m.getElem_regsUpTo w.x r hlt)
    · intro later hmemory hindex w' hw' hkk' hy
      have hfilled := later.filled_fillUpTo w'.x
      refine ⟨_, execute_of_fits (i := .fill w'.x) hw' ⟨hkk', rfl⟩ later, hfilled, fun r hr => ?_⟩
      have hlt : r.val < (m.regsUpTo w.x).length :=
        hlength ▸ Nat.lt_succ_of_le (Nat.le_trans hr hy)
      exact (hstored.reg_fill hmemory hindex hfilled hr hlt).trans (m.getElem_regsUpTo w.x r hlt)
  · have hfilled := m.filled_fillUpTo w.x
    refine ⟨_, execute_of_fits (i := .fill w.x) hw ⟨hkk, rfl⟩ m, hfilled, ?_⟩
    intro w' hw' hkk' hx
    rw [execute_of_fits (i := .dump w.x) hw' ⟨hkk', hx⟩]
    exact congrArg _ hfilled.dumpUpTo
  · obtain ⟨h, t, u, hdigits, hstored⟩ := m.exists_stored_storeDecimal w.x
    refine ⟨_, h, t, u, execute_of_fits (i := .decimal w.x) hw ⟨hkk, rfl⟩ m, hdigits, hstored, ?_⟩
    intro later hmemory hindex w' hw' hkk' hx
    have hfilled := later.filled_fillUpTo 2
    exact ⟨_, execute_of_fits (i := .fill 2) hw' ⟨hkk', hx⟩ later, hfilled,
      hstored.reg_fill hmemory hindex hfilled (r := 0) (by decide) (by simp),
      hstored.reg_fill hmemory hindex hfilled (r := 1) (by decide) (by simp),
      hstored.reg_fill hmemory hindex hfilled (r := 2) (by decide) (by simp)⟩

/-- Registers that differ, and an index from which four bytes go round the end of the memory. -/
def atTheEnd : Machine :=
  { (((blank (.seeded 7)).setReg 1 254).setReg 2 93).setReg 3 7 with index := 4094 }

/-- Between the dump and the fill of three of the four registers all of them are cleared. -/
theorem execute_transfer_round_the_end :
    ((0xF355 : Word).group = 0xF ∧ ∃ dumped, atTheEnd.execute 0xF355 = .ok dumped ∧
      dumped.memory.read 0 = 93 ∧
      ∃ last, { dumped with registers := Vector.replicate 16 0 }.execute 0xF265 = .ok last ∧
        last.reg 1 = 254 ∧ last.reg 2 = 93 ∧ last.reg 3 = 0) ∧
    ((0xF365 : Word).group = 0xF ∧ ∃ filled, atTheEnd.execute 0xF365 = .ok filled ∧
      filled.execute 0xF355 = .ok filled) ∧
    (0xF133 : Word).group = 0xF ∧ ∃ stored, ∃ h t u : Byte,
      atTheEnd.execute 0xF133 = .ok stored ∧ 100 * h.toNat + 10 * t.toNat + u.toNat = 254 ∧
      stored.memory.read 4096 = u := by
  obtain ⟨dumped, hdump, -, hread, hlater⟩ :=
    (execute_transfer (w := 0xF355) (by decide) atTheEnd).1 (by decide)
  obtain ⟨last, hfill, hfilled, hback⟩ :=
    hlater { dumped with registers := Vector.replicate 16 0 } rfl rfl 0xF265 (by decide)
      (by decide) (by decide)
  obtain ⟨filled, hload, -, hsame⟩ :=
    (execute_transfer (w := 0xF365) (by decide) atTheEnd).2.1 (by decide)
  obtain ⟨stored, h, t, u, hstore, hdigits, hstored, -⟩ :=
    (execute_transfer (w := 0xF133) (by decide) atTheEnd).2.2 (by decide)
  have hcell : dumped.memory.read 0 = dumped.memory.read 4096 := dumped.memory.read_congr rfl
  refine ⟨⟨by decide, dumped, hdump, ?_, last, hfill, ?_, ?_, ?_⟩,
    ⟨by decide, filled, hload, hsame 0xF355 (by decide) (by decide) (by decide)⟩,
    by decide, stored, h, t, u, hstore, hdigits.value, ?_⟩
  · exact hcell.trans (hread 2 (by decide))
  · exact hback 1 (by decide)
  · exact hback 2 (by decide)
  · exact hfilled.others 3 (by decide)
  · exact hstored.inside 2 (by simp)

end ChipEight.Machine
