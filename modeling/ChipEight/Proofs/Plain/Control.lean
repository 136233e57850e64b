/-
# `ChipEight.Proofs.Plain.Control` — words and control flow in plain numbers

A handler is given the whole word as a number, masks its operands out of it, and
goes through the accesses of `Proofs.Plain.State`; nothing but those masks keeps
its indices inside the lists.  Here are the masks, and the handlers that move the
program counter.

**Proved here**, for every machine and every word:

    a mask takes out the field of the word                (`x_word`, ..., `nnn_word`)
    the handler ends without a failure, in the plain state
    of the machine after the instruction                  (`run_clear`, `run_ret`, ...)

Only the call needs a hypothesis: the stack pointer names a slot.
-/
import ChipEight.Proofs.Plain.State

namespace ChipEight.Plain

/-! ## Fields of a word -/

def group (op : Nat) : Nat := (op &&& 0xF000) >>> 12

def x (op : Nat) : Nat := (op &&& 0x0F00) >>> 8

def y (op : Nat) : Nat := (op &&& 0x00F0) >>> 4

def n (op : Nat) : Nat := op &&& 0x000F

def kk (op : Nat) : Nat := op &&& 0x00FF

def nnn (op : Nat) : Nat := op &&& 0x0FFF

/-- A mask of `width` ones, `shift` places up, takes out a digit. -/
theorem masked (op width shift : Nat) :
    (op &&& (1 <<< width - 1) <<< shift) >>> shift = op / 1 <<< shift % 1 <<< width := by
  rw [Nat.one_shiftLeft, Nat.one_shiftLeft, Nat.shiftRight_and_distrib,
    Nat.shiftLeft_shiftRight, Nat.and_two_pow_sub_one_eq_mod,
    Nat.shiftRight_eq_div_pow]

theorem group_word (w : Word) : group w.toNat = w.group := by
  have hlt := w.isLt
  have h : group w.toNat = w.toNat / 0x1000 % 0x10 := masked w.toNat 4 12
  rw [h, Word.group]
  omega

theorem x_word (w : Word) : x w.toNat = w.x.val := masked w.toNat 4 8

theorem y_word (w : Word) : y w.toNat = w.y.val := masked w.toNat 4 4

theorem n_word (w : Word) : n w.toNat = w.n.val := Nat.and_two_pow_sub_one_eq_mod w.toNat 4

theorem kk_word (w : Word) : kk w.toNat = w.kk.toNat := by
  rw [Word.kk, BitVec.toNat_ofNat]
  exact Nat.and_two_pow_sub_one_eq_mod w.toNat 8

theorem nnn_word (w : Word) : nnn w.toNat = w.nnn.val := Nat.and_two_pow_sub_one_eq_mod w.toNat 12

/-! ## Control flow -/

def skip : Exec Unit := modify fun s => { s with pc := (s.pc + 2) % 4096 }

def rewind : Exec Unit := modify fun s => { s with pc := (s.pc - 2) % 4096 }

/-- Stops at a word without instruction; the report shows the word before the program counter. -/
def invalid (op : Nat) : Exec Unit := do
  throw (.invalidOpcode (.invalidOpcode op (((← get).pc - 2) % 4096) 0))

def clear (_ : Nat) : Exec Unit := modify fun s => { s with video := List.replicate 32 0 }

def ret (_ : Nat) : Exec Unit := do
  modify fun s => { s with sp := (s.sp - 1) % s.stack.length }
  let s ← get
  let pc ← entry s.stack s.sp
  set { s with pc }

def jump (op : Nat) : Exec Unit := modify fun s => { s with pc := nnn op }

def call (op : Nat) : Exec Unit := do
  let s ← get
  let stack ← replaced s.stack s.sp s.pc
  set { s with stack, sp := (s.sp + 1) % stack.length, pc := nnn op }

def jumpOffset (op : Nat) : Exec Unit := do
  let v ← register 0
  modify fun s => { s with pc := (v + nnn op) % 4096 }

def skipWhen (test : Nat → Exec Bool) (op : Nat) : Exec Unit := do
  if ← test op then skip else return ()

def isByte (op : Nat) : Exec Bool := return (← register (x op)) == kk op

def notByte (op : Nat) : Exec Bool := return (← register (x op)) != kk op

def same (op : Nat) : Exec Bool := return (← register (x op)) == (← register (y op))

def differ (op : Nat) : Exec Bool := return (← register (x op)) != (← register (y op))

def held (op : Nat) : Exec Bool := do
  let v ← register (x op)
  let keypad := (← get).keypad
  entry keypad (v % keypad.length)

def free (op : Nat) : Exec Bool := return !(← held op)

variable (m : Machine) (w : Word)

theorem run_invalid :
    (invalid w.toNat).run m.plain =
      .error (.invalidOpcode ((m.faultAt w).report 0)) m.plain := by
  have haddr : (m.plain.pc - 2) % 4096 = (residue 4096 (m.pc - 2)).val :=
    (residue_val 4096 (m.pc - 2)).symm
  simp only [invalid, EStateM.run_bind, EStateM.run_get, haddr]
  rfl

theorem run_clear : (clear w.toNat).run m.plain = .ok () (m.apply .clear).plain := by
  have h : (Vector.replicate 32 (0 : Row)).toList.map BitVec.toNat = List.replicate 32 0 := by
    rw [Vector.toList_replicate, List.map_replicate]
    rfl
  simp only [clear, EStateM.run_modify, Machine.apply, Machine.plain, Screen.blank, h]

theorem run_skip : skip.run m.plain = .ok () m.skipNext.plain := rfl

theorem run_rewind : rewind.run m.plain = .ok () m.rewind.plain := rfl

/-- Moving back to the slot before never leaves the stack, wherever the pointer stood. -/
theorem run_ret : (ret w.toNat).run m.plain = .ok () (m.apply .ret).plain := by
  have hsp : (m.sp - 1) % m.stack.toList.length = (residue 16 (m.sp - 1)).val := by
    rw [Vector.length_toList]
    exact (residue_val 16 (m.sp - 1)).symm
  have hlt : (residue 16 (m.sp - 1)).val < m.stack.toList.length := by
    rw [Vector.length_toList]
    exact (residue 16 (m.sp - 1)).isLt
  simp only [ret, EStateM.run_bind, EStateM.run_modify, EStateM.run_get, Machine.plain, hsp,
    run_entry hlt, EStateM.run_set, Vector.getElem_toList]
  rfl

theorem run_jump : (jump w.toNat).run m.plain = .ok () (m.apply (.jump w.nnn)).plain := by
  simp only [jump, nnn_word]
  rfl

/-- A call keeps its return address in the slot that the stack pointer names, so the pointer has
to name one. -/
theorem run_call (h : 0 ≤ m.sp ∧ m.sp < 16) :
    (call w.toNat).run m.plain = .ok () (m.apply (.call w.nnn)).plain := by
  have hsp : m.sp = (residue 16 m.sp).val := by
    rw [residue_val 16 m.sp]
    exact (Int.emod_eq_of_lt h.1 h.2).symm
  have hlt : (residue 16 m.sp).val < m.stack.toList.length := by
    rw [Vector.length_toList]
    exact (residue 16 m.sp).isLt
  have hput : (replaced m.plain.stack m.plain.sp m.plain.pc).run m.plain =
      .ok (m.stack.set (residue 16 m.sp) m.pc).toList m.plain := by
    rw [Vector.toList_set, ← run_replaced hlt m.pc m.plain, ← hsp]
    rfl
  simp only [call, EStateM.run_bind, EStateM.run_get, hput, EStateM.run_set, nnn_word,
    Vector.length_toList]
  rfl

theorem run_jumpOffset :
    (jumpOffset w.toNat).run m.plain = .ok () (m.apply (.jumpOffset w.nnn)).plain := by
  have hv := run_register m 0
  simp only [jumpOffset, EStateM.run_bind, nnn_word]
  rw [show register 0 = register ((0 : Register).val : Int) from rfl, hv]
  rfl

/-- A test that reads the state as the condition does makes the skip of the condition. -/
theorem run_skipWhen {test : Nat → Exec Bool} {c : Condition}
    (h : (test w.toNat).run m.plain = .ok (m.holds c) m.plain) :
    (skipWhen test w.toNat).run m.plain = .ok () (m.apply (.skip c)).plain := by
  simp only [skipWhen, EStateM.run_bind, h, Machine.apply]
  cases m.holds c with
  | true => exact run_skip m
  | false => rfl

theorem toNat_beq {width : Nat} (a b : BitVec width) : (a.toNat == b.toNat) = (a == b) := by
  rw [Bool.eq_iff_iff, beq_iff_eq, beq_iff_eq]
  exact BitVec.toNat_inj

theorem run_isByte : (isByte w.toNat).run m.plain = .ok (m.holds (.isByte w.x w.kk)) m.plain := by
  simp only [isByte, EStateM.run_bind, x_word, run_register, kk_word, EStateM.run_pure,
    Machine.holds, toNat_beq]

theorem run_notByte :
    (notByte w.toNat).run m.plain = .ok (m.holds (.notByte w.x w.kk)) m.plain := by
  simp only [notByte, EStateM.run_bind, x_word, run_register, kk_word, EStateM.run_pure,
    Machine.holds, bne, toNat_beq]

theorem run_same : (same w.toNat).run m.plain = .ok (m.holds (.same w.x w.y)) m.plain := by
  simp only [same, EStateM.run_bind, x_word, y_word, run_register, EStateM.run_pure,
    Machine.holds, toNat_beq]

theorem run_differ : (differ w.toNat).run m.plain = .ok (m.holds (.differ w.x w.y)) m.plain := by
  simp only [differ, EStateM.run_bind, x_word, y_word, run_register, EStateM.run_pure,
    Machine.holds, bne, toNat_beq]

theorem run_held : (held w.toNat).run m.plain = .ok (m.holds (.held w.x)) m.plain := by
  have hkey : ((m.reg w.x).toNat : Int) % m.keypad.flags.toList.length =
      (residue 16 (m.reg w.x).toNat).val := by
    rw [Vector.length_toList]
    exact (residue_val 16 (m.reg w.x).toNat).symm
  have hlt : (residue 16 (m.reg w.x).toNat).val < m.keypad.flags.toList.length := by
    rw [Vector.length_toList]
    exact (residue 16 (m.reg w.x).toNat).isLt
  simp only [held, EStateM.run_bind, x_word, run_register, EStateM.run_get]
  rw [show m.plain.keypad = m.keypad.flags.toList from rfl, hkey, run_entry hlt,
    Vector.getElem_toList]
  rfl

theorem run_free : (free w.toNat).run m.plain = .ok (m.holds (.free w.x)) m.plain := by
  simp only [free, EStateM.run_bind, run_held, EStateM.run_pure]
  rfl

end ChipEight.Plain
