/-
# `ChipEight.Proofs.WellFormed` — no operation leaves the ranges

A machine is well-formed when its index, program counter and stack entries are
addresses, its stack pointer names a slot and its timers are bytes.  Most
instructions reduce what they store.  Three do not: a return copies a stack entry
into the program counter, and the two timer instructions copy a register; they
rely on the ranges of what they copy.

**Proved here.**

    one instruction keeps the ranges                            (`WellFormed.apply`)
    so do words, steps and cycles, whether or not they fault    (`WellFormed.execute`, `WellFormed.step`,
                                                                 `WellFormed.cycle`)
    a loaded machine is in range                                (`wellFormed_withRom`)
-/
import ChipEight.Machine.Cycle
import ChipEight.Machine.Load

namespace ChipEight

namespace Machine

/-- What is left of a machine by something that may fault. -/
def leftBy : Except Halt Machine → Machine
  | .ok next => next
  | .error halt => halt.machine

namespace WellFormed

variable {m : Machine}

/-! ## Parts of a machine -/

/-- Only six fields have a range that their type does not keep. -/
theorem of_eq (h : m.WellFormed) {m' : Machine} (hstack : m'.stack = m.stack)
    (hindex : m'.index = m.index) (hpc : m'.pc = m.pc) (hsp : m'.sp = m.sp)
    (hdelay : m'.delay = m.delay) (hsound : m'.sound = m.sound) : m'.WellFormed where
  stack := hstack ▸ h.stack
  index := hindex ▸ h.index
  pc := hpc ▸ h.pc
  sp := hsp ▸ h.sp
  delay := hdelay ▸ h.delay
  sound := hsound ▸ h.sound

theorem withRegisters (h : m.WellFormed) (registers : Vector Byte 16) :
    { m with registers }.WellFormed :=
  h.of_eq rfl rfl rfl rfl rfl rfl

theorem setReg (h : m.WellFormed) (x : Register) (b : Byte) : (m.setReg x b).WellFormed :=
  h.withRegisters _

theorem setFlag (h : m.WellFormed) (f : Bool) : (m.setFlag f).WellFormed :=
  h.setReg flagRegister _

theorem withMemory (h : m.WellFormed) (memory : Memory) : { m with memory }.WellFormed :=
  h.of_eq rfl rfl rfl rfl rfl rfl

theorem withScreen (h : m.WellFormed) (screen : Screen) : { m with screen }.WellFormed :=
  h.of_eq rfl rfl rfl rfl rfl rfl

theorem withSource (h : m.WellFormed) (source : RandomSource) : { m with source }.WellFormed :=
  h.of_eq rfl rfl rfl rfl rfl rfl

theorem withKeypad (h : m.WellFormed) (keypad : Keypad) : { m with keypad }.WellFormed :=
  h.of_eq rfl rfl rfl rfl rfl rfl

theorem withPc (h : m.WellFormed) {pc : Int} (hpc : 0 ≤ pc ∧ pc < 4096) :
    { m with pc }.WellFormed :=
  ⟨h.stack, h.index, hpc, h.sp, h.delay, h.sound⟩

theorem withIndex (h : m.WellFormed) {index : Int} (hindex : 0 ≤ index ∧ index < 4096) :
    { m with index }.WellFormed :=
  ⟨h.stack, hindex, h.pc, h.sp, h.delay, h.sound⟩

theorem address_bounds (a : Address) : 0 ≤ (a.val : Int) ∧ (a.val : Int) < 4096 := by
  have hlt := a.isLt
  omega

theorem byte_bounds (b : Byte) : 0 ≤ (b.toNat : Int) ∧ (b.toNat : Int) < 256 := by
  have hlt := b.isLt
  omega

theorem emod_bounds (i : Int) : 0 ≤ i % 4096 ∧ i % 4096 < 4096 := by
  omega

/-! ## Instructions -/

theorem skipNext (h : m.WellFormed) : m.skipNext.WellFormed := h.withPc (emod_bounds _)

theorem rewind (h : m.WellFormed) : m.rewind.WellFormed := h.withPc (emod_bounds _)

theorem callAt (h : m.WellFormed) (target : Address) : (m.callAt target).WellFormed := by
  refine ⟨?_, h.index, address_bounds target, ?_, h.delay, h.sound⟩
  · intro slot
    show 0 ≤ (m.stack.set (residue 16 m.sp) m.pc)[slot] ∧
      (m.stack.set (residue 16 m.sp) m.pc)[slot] < 4096
    rw [Fin.getElem_fin, Vector.getElem_set]
    split
    · exact h.pc
    · exact h.stack slot
  · show 0 ≤ (m.sp + 1) % 16 ∧ (m.sp + 1) % 16 < 16
    omega

theorem resume (h : m.WellFormed) : m.resume.WellFormed := by
  have hslot := (residue 16 (m.sp - 1)).isLt
  refine ⟨h.stack, h.index, h.stack (residue 16 (m.sp - 1)), ?_, h.delay, h.sound⟩
  show 0 ≤ ((residue 16 (m.sp - 1)).val : Int) ∧ ((residue 16 (m.sp - 1)).val : Int) < 16
  omega

theorem combineInto (h : m.WellFormed) (o : Operation) (x y : Register) :
    (m.combineInto o x y).WellFormed := by
  simp only [Machine.combineInto]
  split
  · exact h.setReg x _
  · exact (h.setFlag _).setReg x _

theorem randomInto (h : m.WellFormed) (x : Register) (mask : Byte) :
    (m.randomInto x mask).WellFormed :=
  (h.withSource _).setReg x _

theorem awaitKeyInto (h : m.WellFormed) (x : Register) : (m.awaitKeyInto x).WellFormed := by
  rw [Machine.awaitKeyInto]
  split
  · exact h.setReg x _
  · exact h.rewind

theorem drawSprite (h : m.WellFormed) (x y : Register) (n : Fin 16) :
    (m.drawSprite x y n).WellFormed :=
  (h.withScreen _).setFlag _

theorem apply (h : m.WellFormed) (i : Instruction) : (m.apply i).WellFormed := by
  cases i with
  | clear => exact h.withScreen _
  | ret => exact h.resume
  | jump target => exact h.withPc (address_bounds target)
  | call target => exact h.callAt target
  | skip c =>
      rw [Machine.apply]
      split
      · exact h.skipNext
      · exact h
  | put x b => exact h.setReg x b
  | bump x b => exact h.setReg x _
  | combine o x y => exact h.combineInto o x y
  | point target => exact h.withIndex (address_bounds target)
  | jumpOffset target => exact h.withPc (emod_bounds _)
  | random x mask => exact h.randomInto x mask
  | draw x y n => exact h.drawSprite x y n
  | readDelay x => exact h.setReg x _
  | awaitKey x => exact h.awaitKeyInto x
  | setDelay x => exact ⟨h.stack, h.index, h.pc, h.sp, byte_bounds (m.reg x), h.sound⟩
  | setSound x => exact ⟨h.stack, h.index, h.pc, h.sp, h.delay, byte_bounds (m.reg x)⟩
  | advance x => exact h.withIndex (emod_bounds _)
  | glyph x => exact h.withIndex (address_bounds _)
  | decimal x => exact h.withMemory _
  | dump x => exact h.withMemory _
  | fill x => exact h.withRegisters _

/-! ## Words, steps and cycles -/

theorem carryOut (h : m.WellFormed) (w : Word) (i : Option Instruction) :
    (leftBy (m.carryOut w i)).WellFormed := by
  cases i with
  | none => exact h
  | some i => exact h.apply i

theorem execute (h : m.WellFormed) (w : Word) : (leftBy (m.execute w)).WellFormed :=
  h.carryOut w w.decode

theorem executeGroup (h : m.WellFormed) (w : Word) : (leftBy (m.executeGroup w)).WellFormed :=
  h.carryOut w w.decodeGroup

theorem fetched (h : m.WellFormed) : m.fetched.WellFormed := h.skipNext

theorem step (h : m.WellFormed) : (leftBy m.step).WellFormed := h.fetched.execute m.word

theorem step_ok (h : m.WellFormed) {next : Machine} (hstep : m.step = .ok next) :
    next.WellFormed := by
  have hleft := h.step
  rwa [hstep] at hleft

theorem steps (h : m.WellFormed) (n : Nat) : (leftBy (m.steps n)).WellFormed := by
  induction n generalizing m with
  | zero => exact h
  | succ n ih =>
      rw [Machine.steps]
      cases hstep : m.step with
      | ok next => exact ih (h.step_ok hstep)
      | error halt =>
          have hleft := h.step
          rwa [hstep] at hleft

theorem countDown {t : Int} (ht : 0 ≤ t ∧ t < 256) :
    0 ≤ Machine.countDown t ∧ Machine.countDown t < 256 := by
  rw [Machine.countDown]
  split <;> omega

theorem decay (h : m.WellFormed) : m.decay.WellFormed :=
  ⟨h.stack, h.index, h.pc, h.sp, countDown h.delay, countDown h.sound⟩

theorem cycle (h : m.WellFormed) (n : Int) : (leftBy (m.cycle n)).WellFormed := by
  have hleft := h.steps n.toNat
  rw [Machine.cycle]
  cases hsteps : m.steps n.toNat with
  | ok last =>
      rw [hsteps] at hleft
      exact decay hleft
  | error halt => rwa [hsteps] at hleft

end WellFormed

/-! ## Where a machine starts -/

theorem wellFormed_withRom (rom : List Byte) (source : RandomSource) :
    (withRom rom source).WellFormed := by
  have hblank := wellFormed_blank source
  have hpc : 0 ≤ (romStart : Int) ∧ (romStart : Int) < 4096 := by decide
  exact ⟨hblank.stack, hblank.index, hpc, hblank.sp, hblank.delay, hblank.sound⟩

end Machine

end ChipEight
