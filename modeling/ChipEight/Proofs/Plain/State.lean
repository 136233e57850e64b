/-
# `ChipEight.Proofs.Plain.State` — the machine in plain numbers

The types of `Machine` keep a register below 256 and an index inside its vector,
so there "no register leaves its range" and "no index is out of range" hold by
construction.  `Plain` is the same state with nothing kept by types: registers,
memory cells and screen rows are numbers of any size, every component is a list
of any length, and every access is by number.  An access outside its list stops
the computation with a `Failure`; the state stays as it is at that point.

`Machine.plain` shows a machine as such a state.

**Proved here.**

    the plain states in range are the well-formed machines    (`wellFormed_iff`)
    on a machine's plain state every access succeeds, and does what
    the machine's own access does                             (`run_register`, `run_putRegister`,
                                                               `run_read`, `run_write`, ...)
-/
import ChipEight.Machine.Load

namespace ChipEight

/-- The state of the machine, with nothing known about sizes and ranges. -/
structure Plain where
  registers : List Nat
  memory : List Nat
  stack : List Int
  keypad : List Bool
  /-- The rows of the screen. -/
  video : List Nat
  index : Int
  pc : Int
  sp : Int
  delay : Int
  sound : Int
  source : RandomSource

namespace Plain

/-- Why a computation stops. -/
inductive Failure where
  /-- The word at hand has no instruction. -/
  | invalidOpcode (r : Report)
  /-- There is no entry with this number. -/
  | outOfRange (i : Int)
  deriving DecidableEq

/-- A computation on plain states; a failure leaves the state that it finds. -/
abbrev Exec (α : Type) := EStateM Failure Plain α

/-! ## Access by number -/

section Access

variable {α : Type}

/-- The entry numbered `i`, counting from 0. -/
def entry (xs : List α) (i : Int) : Exec α :=
  match if 0 ≤ i then xs[i.toNat]? else none with
  | some a => return a
  | none => throw (.outOfRange i)

/-- The list with another entry numbered `i`. -/
def replaced (xs : List α) (i : Int) (a : α) : Exec (List α) :=
  if 0 ≤ i ∧ i.toNat < xs.length then return xs.set i.toNat a else throw (.outOfRange i)

theorem run_entry {xs : List α} {k : Nat} (hk : k < xs.length) (s : Plain) :
    (entry xs k).run s = .ok xs[k] s := by
  have hnonneg : (0 : Int) ≤ k := Int.natCast_nonneg k
  simp only [entry, if_pos hnonneg, Int.toNat_natCast, List.getElem?_eq_getElem hk]
  rfl

theorem run_replaced {xs : List α} {k : Nat} (hk : k < xs.length) (a : α) (s : Plain) :
    (replaced xs k a).run s = .ok (xs.set k a) s := by
  have hin : (0 : Int) ≤ k ∧ (k : Int).toNat < xs.length :=
    ⟨Int.natCast_nonneg k, by rwa [Int.toNat_natCast]⟩
  rw [replaced, if_pos hin, Int.toNat_natCast]
  rfl

end Access

def register (i : Int) : Exec Nat := do entry (← get).registers i

def putRegister (i : Int) (v : Nat) : Exec Unit := do
  let registers ← replaced (← get).registers i v
  modify fun s => { s with registers }

/-- Sets a register, the number taken modulo 16 and the value modulo 256. -/
def setRegister (number value : Int) : Exec Unit :=
  putRegister (number % 16) (value % 256).toNat

def read (addr : Int) : Exec Nat := do entry (← get).memory (addr % 4096)

/-- Writes a memory cell, the address taken modulo 4096 and the value modulo 256. -/
def write (addr value : Int) : Exec Unit := do
  let memory ← replaced (← get).memory (addr % 4096) (value % 256).toNat
  modify fun s => { s with memory }

/-- Writes values at consecutive addresses, in order. -/
def load : List Int → Int → Exec Unit
  | [], _ => return ()
  | v :: vs, base => do
      write base v
      load vs (base + 1)

/-! ## Ranges -/

/-- Every component has its size and every entry its range. -/
structure WellFormed (s : Plain) : Prop where
  registers : s.registers.length = 16 ∧ ∀ v ∈ s.registers, v < 256
  memory : s.memory.length = 4096 ∧ ∀ v ∈ s.memory, v < 256
  stack : s.stack.length = 16 ∧ ∀ a ∈ s.stack, 0 ≤ a ∧ a < 4096
  keypad : s.keypad.length = 16
  video : s.video.length = 32 ∧ ∀ row ∈ s.video, row < 0x10000000000000000
  index : 0 ≤ s.index ∧ s.index < 4096
  pc : 0 ≤ s.pc ∧ s.pc < 4096
  sp : 0 ≤ s.sp ∧ s.sp < 16
  delay : 0 ≤ s.delay ∧ s.delay < 256
  sound : 0 ≤ s.sound ∧ s.sound < 256

end Plain

/-- The machine in plain numbers. -/
def Machine.plain (m : Machine) : Plain where
  registers := m.registers.toList.map BitVec.toNat
  memory := m.memory.toList.map BitVec.toNat
  stack := m.stack.toList
  keypad := m.keypad.flags.toList
  video := m.screen.rows.toList.map BitVec.toNat
  index := m.index
  pc := m.pc
  sp := m.sp
  delay := m.delay
  sound := m.sound
  source := m.source

namespace Plain

/-- The words of width `w` with the given values. -/
def words (w n : Nat) (vs : List Nat) (h : vs.length = n) : Vector (BitVec w) n :=
  ⟨(vs.map (BitVec.ofNat w)).toArray, by simpa using h⟩

theorem toNat_words {w n : Nat} {vs : List Nat} (h : vs.length = n)
    (hid : ∀ v ∈ vs, (BitVec.ofNat w v).toNat = v) :
    (words w n vs h).toList.map BitVec.toNat = vs := by
  have hcomp : ∀ v ∈ vs, (BitVec.toNat ∘ BitVec.ofNat w) v = id v := hid
  show ((vs.map (BitVec.ofNat w)).toArray.toList).map BitVec.toNat = vs
  rw [List.map_map, List.map_congr_left hcomp, List.map_id]

theorem words_lt {w n bound : Nat} (hbound : ∀ b : BitVec w, b.toNat < bound)
    (v : Vector (BitVec w) n) : ∀ a ∈ v.toList.map BitVec.toNat, a < bound := by
  intro a ha
  obtain ⟨b, -, rfl⟩ := List.mem_map.1 ha
  exact hbound b

theorem length_words {w n : Nat} (v : Vector (BitVec w) n) :
    (v.toList.map BitVec.toNat).length = n := by
  rw [List.length_map, Vector.length_toList]

/-- The plain states in range are those of the well-formed machines. -/
theorem wellFormed_iff {s : Plain} : s.WellFormed ↔ ∃ m : Machine, m.WellFormed ∧ m.plain = s := by
  constructor
  · intro h
    let m : Machine :=
      { registers := words 8 16 s.registers h.registers.1
        memory := ⟨words 8 4096 s.memory h.memory.1⟩
        stack := ⟨s.stack.toArray, h.stack.1⟩
        keypad := ⟨⟨s.keypad.toArray, h.keypad⟩⟩
        screen := ⟨words 64 32 s.video h.video.1⟩
        index := s.index, pc := s.pc, sp := s.sp, delay := s.delay, sound := s.sound
        source := s.source }
    refine ⟨m, ?_, ?_⟩
    · have hstack : ∀ slot : Fin 16, 0 ≤ m.stack[slot] ∧ m.stack[slot] < 4096 := fun slot =>
        h.stack.2 _ (List.getElem_mem _)
      exact ⟨hstack, h.index, h.pc, h.sp, h.delay, h.sound⟩
    · show Plain.mk (m.registers.toList.map BitVec.toNat) (m.memory.toList.map BitVec.toNat) s.stack
        s.keypad (m.screen.rows.toList.map BitVec.toNat) s.index s.pc s.sp s.delay s.sound
        s.source = s
      have hr : m.registers.toList.map BitVec.toNat = s.registers :=
        toNat_words h.registers.1 fun v hv => Nat.mod_eq_of_lt (h.registers.2 v hv)
      have hm : m.memory.toList.map BitVec.toNat = s.memory :=
        toNat_words h.memory.1 fun v hv => Nat.mod_eq_of_lt (h.memory.2 v hv)
      have hv : m.screen.rows.toList.map BitVec.toNat = s.video :=
        toNat_words h.video.1 fun v hv => Nat.mod_eq_of_lt (h.video.2 v hv)
      rw [hr, hm, hv]
  · rintro ⟨m, h, rfl⟩
    refine ⟨⟨length_words _, words_lt BitVec.isLt _⟩, ⟨length_words _, words_lt BitVec.isLt _⟩,
      ⟨Vector.length_toList, ?_⟩, Vector.length_toList,
      ⟨length_words _, words_lt BitVec.isLt _⟩, h.index, h.pc, h.sp, h.delay, h.sound⟩
    intro a ha
    obtain ⟨k, hk, rfl⟩ := List.getElem_of_mem ha
    have hk' : k < 16 := by rwa [Machine.plain, Vector.length_toList] at hk
    exact h.stack ⟨k, hk'⟩

theorem wellFormed_plain {m : Machine} (h : m.WellFormed) : m.plain.WellFormed :=
  wellFormed_iff.2 ⟨m, h, rfl⟩

/-! ## Access to the plain state of a machine -/

theorem toNat_ofInt_byte (v : Int) : (BitVec.ofInt 8 v).toNat = (v % 256).toNat := by
  rw [BitVec.toNat_ofInt]
  rfl

/-- Taking an entry out of a vector of words. -/
theorem run_entry_words {w n : Nat} (v : Vector (BitVec w) n) (k : Fin n) (s : Plain) :
    (entry (v.toList.map BitVec.toNat) (k.val : Int)).run s = .ok (v.get k).toNat s := by
  have hk : k.val < (v.toList.map BitVec.toNat).length := by
    rw [length_words]
    exact k.isLt
  rw [run_entry hk]
  simp [get_eq_getElem]

theorem run_replaced_words {w n : Nat} (v : Vector (BitVec w) n) (k : Fin n) (b : BitVec w)
    (s : Plain) :
    (replaced (v.toList.map BitVec.toNat) (k.val : Int) b.toNat).run s =
      .ok ((v.set k b k.isLt).toList.map BitVec.toNat) s := by
  have hk : k.val < (v.toList.map BitVec.toNat).length := by
    rw [length_words]
    exact k.isLt
  rw [run_replaced hk, ← List.map_set, Vector.toList_set k.isLt]

theorem run_register (m : Machine) (x : Register) :
    (register x.val).run m.plain = .ok (m.reg x).toNat m.plain := by
  simp only [register, EStateM.run_bind, EStateM.run_get]
  exact run_entry_words m.registers x m.plain

theorem run_putRegister (m : Machine) (x : Register) (b : Byte) :
    (putRegister x.val b.toNat).run m.plain = .ok () (m.setReg x b).plain := by
  have h := run_replaced_words m.registers x b m.plain
  simp only [putRegister, EStateM.run_bind, EStateM.run_get]
  rw [show m.plain.registers = m.registers.toList.map BitVec.toNat from rfl, h]
  rfl

theorem run_setRegister (m : Machine) (number value : Int) :
    (setRegister number value).run m.plain = .ok () (m.setRegister number value).plain := by
  have hnumber : number % 16 = (residue 16 number).val := (residue_val 16 number).symm
  rw [setRegister, ← toNat_ofInt_byte, hnumber]
  exact run_putRegister m (residue 16 number) (BitVec.ofInt 8 value)

theorem run_read (m : Machine) (addr : Int) :
    (read addr).run m.plain = .ok (m.memory.read addr).toNat m.plain := by
  have haddr : addr % 4096 = (residue 4096 addr).val := (residue_val 4096 addr).symm
  simp only [read, EStateM.run_bind, EStateM.run_get, haddr]
  exact run_entry_words m.memory.cells (residue 4096 addr) m.plain

theorem run_write (m : Machine) (addr value : Int) :
    (write addr value).run m.plain = .ok () (m.write addr value).plain := by
  have h := run_replaced_words m.memory.cells (residue 4096 addr) (BitVec.ofInt 8 value) m.plain
  have haddr : addr % 4096 = (residue 4096 addr).val := (residue_val 4096 addr).symm
  simp only [write, EStateM.run_bind, EStateM.run_get, haddr]
  rw [← toNat_ofInt_byte, show m.plain.memory = m.memory.cells.toList.map BitVec.toNat from rfl, h]
  rfl

theorem run_load (m : Machine) (values : List Int) (base : Int) :
    (load values base).run m.plain =
      .ok () (m.loadBytes (values.map (BitVec.ofInt 8)) base).plain := by
  induction values generalizing m base with
  | nil => rfl
  | cons v vs ih =>
      rw [load, EStateM.run_bind, run_write]
      exact ih (m.write base v) (base + 1)

end Plain

end ChipEight
