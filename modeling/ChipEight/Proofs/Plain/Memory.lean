/-
# `ChipEight.Proofs.Plain.Memory` — registers to memory and back in plain numbers

The three handlers that move blocks of bytes go one cell at a time, each address
and each register number on its own.

**Proved here**, for every machine and every word:

    what the first cells of a dump and of a fill leave behind    (`run_dumpFrom`, `run_fillFrom`)
    the handler ends without a failure, in the plain state
    of the machine after the instruction                         (`run_decimal`, `run_dump`, `run_fill`)
-/
import ChipEight.Proofs.Plain.Registers

namespace ChipEight.Plain

/-- Stores the hundreds, tens and ones of a register. -/
def decimal (op : Nat) : Exec Unit := do
  let v ← register (x op)
  write (← get).index (v / 100 : Nat)
  write ((← get).index + 1) (v / 10 % 10 : Nat)
  write ((← get).index + 2) (v % 10 : Nat)

/-- Stores `count` registers from number `i` on. -/
def dumpFrom (i : Nat) : Nat → Exec Unit
  | 0 => return ()
  | count + 1 => do
      let v ← register i
      write ((← get).index + i) v
      dumpFrom (i + 1) count

def dump (op : Nat) : Exec Unit := dumpFrom 0 (x op + 1)

/-- Loads `count` registers from number `i` on. -/
def fillFrom (i : Nat) : Nat → Exec Unit
  | 0 => return ()
  | count + 1 => do
      let v ← read ((← get).index + i)
      setRegister i v
      fillFrom (i + 1) count

def fill (op : Nat) : Exec Unit := fillFrom 0 (x op + 1)

variable (m : Machine) (w : Word)

theorem run_decimal : (decimal w.toNat).run m.plain = .ok () (m.apply (.decimal w.x)).plain := by
  simp only [decimal, EStateM.run_bind, EStateM.run_get, x_word, run_register, run_write]
  have hadd : m.index + 2 = m.index + 1 + 1 := by omega
  show EStateM.Result.ok ()
    (((m.write m.index _).write (m.index + 1) _).write (m.index + 2) _).plain = _
  rw [hadd]
  simp only [Machine.write, Memory.write, BitVec.ofInt_natCast]
  rfl

/-! ## Storing registers -/

theorem run_dumpFrom (count : Nat) :
    ∀ (m : Machine) (i : Nat), i + count ≤ 16 →
      (dumpFrom i count).run m.plain =
        .ok () (m.loadBytes ((m.registers.toList.drop i).take count) (m.index + i)).plain := by
  induction count with
  | zero =>
      intro m i _
      rw [List.take_zero]
      rfl
  | succ count ih =>
      intro m i hi
      have hlt : i < 16 := by omega
      have hreg := run_register m ⟨i, hlt⟩
      have hdrop : m.registers.toList.drop i =
          m.reg ⟨i, hlt⟩ :: m.registers.toList.drop (i + 1) := by
        rw [List.drop_eq_getElem_cons (by simpa using hlt)]
        simp [Machine.reg]
      have hwrite : m.write (m.index + i) (m.reg ⟨i, hlt⟩).toNat =
          { m with memory := m.memory.set (m.index + i) (m.reg ⟨i, hlt⟩) } := by
        simp only [Machine.write, Memory.write, ofInt_toNat]
      have haddr : m.index + i + 1 = m.index + (i + 1 : Nat) := by omega
      simp only [dumpFrom, EStateM.run_bind, EStateM.run_get, hreg]
      rw [show m.plain.index = m.index from rfl, run_write, hwrite]
      simp only
      rw [ih _ (i + 1) (by omega), hdrop, List.take_succ_cons]
      simp only [Machine.loadBytes, Memory.load, haddr]

theorem run_dump : (dump w.toNat).run m.plain = .ok () (m.apply (.dump w.x)).plain := by
  have hx := w.x.isLt
  have h := run_dumpFrom (w.x.val + 1) m 0 (by omega)
  rw [dump, x_word, h, List.drop_zero, Int.natCast_zero, Int.add_zero]
  rfl

/-! ## Loading registers -/

/-- The machine once `count` registers from number `i` on are loaded. -/
def filled (m : Machine) (i count : Nat) : Machine :=
  { m with
    registers := Vector.ofFn fun r : Register =>
      if i ≤ r.val ∧ r.val < i + count then m.memory.read (m.index + r.val) else m.reg r }

theorem filled_zero (i : Nat) : filled m i 0 = m := by
  have h : (Vector.ofFn fun r : Register =>
      if i ≤ r.val ∧ r.val < i + 0 then m.memory.read (m.index + r.val) else m.reg r) =
        m.registers := by
    ext r hr
    have hnot : ¬ (i ≤ r ∧ r < i + 0) := by omega
    simp only [Vector.getElem_ofFn, if_neg hnot]
    rfl
  rw [filled, h]

theorem filled_succ (i count : Nat) (hi : i < 16) :
    filled (m.setReg ⟨i, hi⟩ (m.memory.read (m.index + i))) (i + 1) count =
      filled m i (count + 1) := by
  have h : (Vector.ofFn fun r : Register =>
      if i + 1 ≤ r.val ∧ r.val < i + 1 + count then m.memory.read (m.index + r.val)
      else (m.setReg ⟨i, hi⟩ (m.memory.read (m.index + i))).reg r) =
        Vector.ofFn fun r : Register =>
          if i ≤ r.val ∧ r.val < i + (count + 1) then m.memory.read (m.index + r.val)
          else m.reg r := by
    congr 1
    funext r
    rw [Machine.reg_setReg]
    by_cases hr : ⟨i, hi⟩ = r
    · subst hr
      simp
    · have hne : i ≠ r.val := fun h => hr (Fin.ext h)
      have hiff : (i + 1 ≤ r.val ∧ r.val < i + 1 + count) ↔
          (i ≤ r.val ∧ r.val < i + (count + 1)) := by
        omega
      simp only [hiff, if_neg hr]
  unfold filled
  simp only [Machine.setReg] at h ⊢
  rw [h]

theorem run_fillFrom (count : Nat) :
    ∀ (m : Machine) (i : Nat), i + count ≤ 16 →
      (fillFrom i count).run m.plain = .ok () (filled m i count).plain := by
  induction count with
  | zero =>
      intro m i _
      rw [filled_zero]
      rfl
  | succ count ih =>
      intro m i hi
      have hlt : i < 16 := by omega
      have hset := run_setRegister_byte m ⟨i, hlt⟩ (ofInt_toNat (m.memory.read (m.index + i)))
      simp only [fillFrom, EStateM.run_bind, EStateM.run_get]
      rw [show m.plain.index = m.index from rfl, run_read]
      simp only [hset]
      rw [ih _ (i + 1) (by omega), filled_succ]

theorem run_fill : (fill w.toNat).run m.plain = .ok () (m.apply (.fill w.x)).plain := by
  have hx := w.x.isLt
  have hregs : (Vector.ofFn fun r : Register =>
      if 0 ≤ r.val ∧ r.val < 0 + (w.x.val + 1) then m.memory.read (m.index + r.val) else m.reg r) =
        Vector.ofFn fun r : Register =>
          if r ≤ w.x then m.memory.read (m.index + r.val) else m.reg r := by
    congr 1
    funext r
    have hiff : (0 ≤ r.val ∧ r.val < 0 + (w.x.val + 1)) ↔ r ≤ w.x := by
      rw [Fin.le_def]
      omega
    simp only [hiff]
  rw [fill, x_word, run_fillFrom (w.x.val + 1) m 0 (by omega), filled, hregs]
  rfl

end ChipEight.Plain
