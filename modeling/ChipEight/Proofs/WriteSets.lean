/-
# `ChipEight.Proofs.WriteSets` — which words write which parts of the machine

For each part of the machine but the program counter, `Writes` says by their digits
which words may change it.  Some parts depend on the machine: the cells are counted from
the index, the rows from a register, and the slot is the one at the stack pointer.

Whatever a word does not write, a step of it keeps, also if it faults.  So does a host
in everything that its calls neither write themselves nor have a word write; among its
calls only those for the keys reach the keypad.

**Proved here.**

    one instruction keeps the parts that its word does not write     (`sameIn_apply`)
    so does a step, whether or not it faults                         (`sameIn_step`)
    and any sequence of calls that leaves the part alone             (`sameIn_performAll`)
    after it the keys are as the host has set them                   (`keypad_performAll`)
-/
import ChipEight.Proofs.Agreement
import ChipEight.Proofs.Plain.Host
import ChipEight.Proofs.Words

namespace ChipEight

/-- A part of the machine, the program counter apart. -/
inductive Part where
  | cell (a : Address)
  | row (y : Fin 32)
  | slot (k : Fin 16)
  | stackPointer
  | index
  | delay
  | sound
  | source
  | keypad
  | register (r : Register)
  deriving DecidableEq, Repr

namespace Machine

/-- Two machines hold the same in a part. -/
def SameIn (m m' : Machine) : Part → Prop
  | .cell a => m.memory.read a.val = m'.memory.read a.val
  | .row y => m.screen.row y.val = m'.screen.row y.val
  | .slot k => m.stack.get k = m'.stack.get k
  | .stackPointer => m.sp = m'.sp
  | .index => m.index = m'.index
  | .delay => m.delay = m'.delay
  | .sound => m.sound = m'.sound
  | .source => m.source = m'.source
  | .keypad => m.keypad = m'.keypad
  | .register r => m.reg r = m'.reg r

/-- Whether a word, executed on the machine, may change a part of it. -/
def Writes (m : Machine) (w : Word) : Part → Prop
  | .cell a => w.group = 0xF ∧ (w.kk.toNat = 0x33 ∧ a ∈ Memory.block m.index 3 ∨
      w.kk.toNat = 0x55 ∧ a ∈ Memory.block m.index (w.x.val + 1))
  | .row y => w.group = 0x0 ∧ w.n.val = 0x0 ∨
      w.group = 0xD ∧ ∃ r, r < w.n.val ∧ ((m.reg w.y).toNat + r) % 32 = y.val
  | .slot k => w.group = 0x2 ∧ m.sp = k.val
  | .stackPointer => w.group = 0x2 ∨ w.group = 0x0 ∧ w.n.val = 0xE
  | .index => w.group = 0xA ∨ w.group = 0xF ∧ (w.kk.toNat = 0x1E ∨ w.kk.toNat = 0x29)
  | .delay => w.group = 0xF ∧ w.kk.toNat = 0x15
  | .sound => w.group = 0xF ∧ w.kk.toNat = 0x18
  | .source => w.group = 0xC
  | .keypad => False
  | .register r =>
      r = w.x ∧ (w.group = 0x6 ∨ w.group = 0x7 ∨ w.group = 0xC ∨
        w.group = 0x8 ∧ w.n.val ∈ [0x0, 0x1, 0x2, 0x3, 0x4, 0x5, 0x6, 0x7, 0xE] ∨
        w.group = 0xF ∧ (w.kk.toNat = 0x07 ∨ w.kk.toNat = 0x0A)) ∨
      r ≤ w.x ∧ w.group = 0xF ∧ w.kk.toNat = 0x65 ∨
      r = flagRegister ∧
        (w.group = 0x8 ∧ w.n.val ∈ [0x4, 0x5, 0x6, 0x7, 0xE] ∨ w.group = 0xD)

instance (m : Machine) (w : Word) : DecidablePred (m.Writes w)
  | .cell _ => instDecidableAnd
  | .row _ => instDecidableOr
  | .slot _ => instDecidableAnd
  | .stackPointer => instDecidableOr
  | .index => instDecidableOr
  | .delay => instDecidableAnd
  | .sound => instDecidableAnd
  | .source => Nat.decEq _ _
  | .keypad => instDecidableFalse
  | .register _ => instDecidableOr

namespace SameIn

variable {part : Part}

theorem refl (m : Machine) : m.SameIn m part := by
  cases part <;> rfl

theorem trans {m₁ m₂ m₃ : Machine} (h : m₁.SameIn m₂ part) (h' : m₂.SameIn m₃ part) :
    m₁.SameIn m₃ part := by
  cases part <;> exact Eq.trans h h'

/-! ## Parts that are replaced -/

variable (m : Machine)

theorem withPc (pc : Int) : m.SameIn { m with pc } part := by
  cases part <;> rfl

theorem withIndex (index : Int) (h : part ≠ .index) : m.SameIn { m with index } part := by
  cases part with
  | index => exact absurd rfl h
  | _ => rfl

theorem withSp (sp : Int) (h : part ≠ .stackPointer) : m.SameIn { m with sp } part := by
  cases part with
  | stackPointer => exact absurd rfl h
  | _ => rfl

theorem withDelay (delay : Int) (h : part ≠ .delay) : m.SameIn { m with delay } part := by
  cases part with
  | delay => exact absurd rfl h
  | _ => rfl

theorem withSound (sound : Int) (h : part ≠ .sound) : m.SameIn { m with sound } part := by
  cases part with
  | sound => exact absurd rfl h
  | _ => rfl

theorem withSource (source : RandomSource) (h : part ≠ .source) :
    m.SameIn { m with source } part := by
  cases part with
  | source => exact absurd rfl h
  | _ => rfl

theorem withKeypad (keypad : Keypad) (h : part ≠ .keypad) : m.SameIn { m with keypad } part := by
  cases part with
  | keypad => exact absurd rfl h
  | _ => rfl

theorem withMemory {memory : Memory}
    (h : ∀ a, part = .cell a → memory.read a.val = m.memory.read a.val) :
    m.SameIn { m with memory } part := by
  cases part with
  | cell a => exact (h a rfl).symm
  | _ => rfl

theorem withScreen {screen : Screen}
    (h : ∀ y, part = .row y → screen.row y.val = m.screen.row y.val) :
    m.SameIn { m with screen } part := by
  cases part with
  | row y => exact (h y rfl).symm
  | _ => rfl

theorem withStack {stack : Vector Int 16}
    (h : ∀ k, part = .slot k → stack.get k = m.stack.get k) : m.SameIn { m with stack } part := by
  cases part with
  | slot k => exact (h k rfl).symm
  | _ => rfl

theorem withRegisters {registers : Vector Byte 16}
    (h : ∀ r, part = .register r → { m with registers }.reg r = m.reg r) :
    m.SameIn { m with registers } part := by
  cases part with
  | register r => exact (h r rfl).symm
  | _ => rfl

theorem setReg {x : Register} (b : Byte) (h : part ≠ .register x) :
    m.SameIn (m.setReg x b) part := by
  refine withRegisters m ?_
  rintro r rfl
  have hne : ¬ x = r := fun heq => h (heq ▸ rfl)
  exact (m.reg_setReg x r b).trans (if_neg hne)

theorem setFlag (f : Bool) (h : part ≠ .register flagRegister) : m.SameIn (m.setFlag f) part :=
  setReg m _ h

/-- A cell outside the block keeps its byte. -/
theorem loadBytes (bytes : List Byte) (base : Int)
    (h : ∀ a ∈ Memory.block base bytes.length, part ≠ .cell a) :
    m.SameIn (m.loadBytes bytes base) part := by
  refine withMemory m ?_
  rintro a rfl
  refine m.memory.read_load_of_not_mem_block ?_
  rw [residue_natCast_of_fin]
  exact fun hmem => h a hmem rfl

end SameIn

/-! ## Instructions -/

section

variable {m : Machine} {w : Word} {part : Part}

theorem sameIn_callAt (target : Address) (hsp : 0 ≤ m.sp ∧ m.sp < 16) (hgroup : w.group = 0x2)
    (h : ¬ m.Writes w part) : m.SameIn (m.callAt target) part := by
  have hstack : m.SameIn { m with stack := m.stack.set (residue 16 m.sp) m.pc } part := by
    refine SameIn.withStack m ?_
    rintro k rfl
    have hne : ¬ (residue 16 m.sp).val = k.val := by
      intro heq
      have hval := residue_val 16 m.sp
      exact h ⟨hgroup, by omega⟩
    rw [get_eq_getElem, get_eq_getElem, Vector.getElem_set_ne _ _ hne]
  refine (hstack.trans (SameIn.withSp _ _ ?_)).trans (SameIn.withPc _ _)
  rintro rfl
  exact h (.inl hgroup)

theorem sameIn_resume (hw : w.group = 0x0 ∧ w.n.val = 0xE) (h : ¬ m.Writes w part) :
    m.SameIn m.resume part := by
  have hslot : m.SameIn { m with sp := (residue 16 (m.sp - 1)).val } part := by
    refine SameIn.withSp m _ ?_
    rintro rfl
    exact h (.inr hw)
  exact hslot.trans (SameIn.withPc _ _)

theorem sameIn_combineInto {o : Operation} {x y : Register} (hgroup : w.group = 0x8)
    (hn : w.n.val = o.digit) (hx : w.x = x) (h : ¬ m.Writes w part) :
    m.SameIn (m.combineInto o x y) part := by
  have hresult : part ≠ .register x := by
    rintro rfl
    exact h (.inl ⟨hx.symm, .inr (.inr (.inr (.inl ⟨hgroup, hn ▸ o.digit_mem⟩)))⟩)
  simp only [combineInto]
  split
  · exact SameIn.setReg m _ hresult
  · next f hf =>
      refine (SameIn.setFlag m f ?_).trans (SameIn.setReg _ _ hresult)
      rintro rfl
      exact h (.inr (.inr ⟨rfl, .inl ⟨hgroup, hn ▸ Operation.digit_mem_of_flag? hf⟩⟩))

theorem sameIn_randomInto {x : Register} (mask : Byte) (hgroup : w.group = 0xC) (hx : w.x = x)
    (h : ¬ m.Writes w part) : m.SameIn (m.randomInto x mask) part := by
  refine (SameIn.withSource m _ ?_).trans (SameIn.setReg _ _ ?_)
  · rintro rfl
    exact h hgroup
  · rintro rfl
    exact h (.inl ⟨hx.symm, .inr (.inr (.inl hgroup))⟩)

theorem sameIn_drawSprite {x y : Register} {n : Fin 16} (hgroup : w.group = 0xD) (hy : w.y = y)
    (hn : w.n = n) (h : ¬ m.Writes w part) : m.SameIn (m.drawSprite x y n) part := by
  subst hy hn
  refine (SameIn.withScreen m ?_).trans (SameIn.setFlag _ _ ?_)
  · rintro k rfl
    refine Screen.row_draw_of_outside _ _ _ _ ?_
    intro r hr heq
    rw [Memory.range, List.length_map, List.length_range, Int.toNat_natCast] at hr
    exact h (.inr ⟨hgroup, r, hr, by omega⟩)
  · rintro rfl
    exact h (.inr (.inr ⟨rfl, .inr hgroup⟩))

theorem sameIn_fillUpTo {x : Register} (hgroup : w.group = 0xF) (hkk : w.kk.toNat = 0x65)
    (hx : w.x = x) (h : ¬ m.Writes w part) : m.SameIn (m.fillUpTo x) part := by
  refine SameIn.withRegisters m ?_
  rintro r rfl
  have hr : ¬ r ≤ x := fun hle => h (.inr (.inl ⟨hx ▸ hle, hgroup, hkk⟩))
  simp only [reg, Fin.getElem_fin, Vector.getElem_ofFn, if_neg hr]

theorem sameIn_awaitKeyInto {x : Register} (h : part ≠ .register x) :
    m.SameIn (m.awaitKeyInto x) part := by
  rw [awaitKeyInto]
  split
  · exact SameIn.setReg m _ h
  · exact SameIn.withPc m _

theorem sameIn_skip (c : Condition) : m.SameIn (m.apply (.skip c)) part := by
  rw [apply]
  split
  · exact SameIn.withPc m _
  · exact SameIn.refl m

/-- One case for each instruction, whose digits say which entry of `Writes` it would be. -/
theorem sameIn_apply {i : Instruction} (hsp : 0 ≤ m.sp ∧ m.sp < 16) (hgroup : w.group = i.group)
    (hfits : i.Fits w) (h : ¬ m.Writes w part) : m.SameIn (m.apply i) part := by
  cases i with
  | clear =>
      refine SameIn.withScreen m ?_
      rintro y rfl
      exact absurd (.inl ⟨hgroup, hfits⟩) h
  | ret => exact sameIn_resume ⟨hgroup, hfits⟩ h
  | jump target => exact SameIn.withPc m _
  | call target => exact sameIn_callAt target hsp hgroup h
  | skip c => exact sameIn_skip c
  | put x b =>
      refine SameIn.setReg m _ ?_
      rintro rfl
      exact h (.inl ⟨hfits.1.symm, .inl hgroup⟩)
  | bump x b =>
      refine SameIn.setReg m _ ?_
      rintro rfl
      exact h (.inl ⟨hfits.1.symm, .inr (.inl hgroup)⟩)
  | combine o x y => exact sameIn_combineInto hgroup hfits.1 hfits.2.1 h
  | point target =>
      refine SameIn.withIndex m _ ?_
      rintro rfl
      exact h (.inl hgroup)
  | jumpOffset target => exact SameIn.withPc m _
  | random x mask => exact sameIn_randomInto mask hgroup hfits.1 h
  | draw x y n => exact sameIn_drawSprite hgroup hfits.2.1 hfits.2.2 h
  | readDelay x =>
      refine SameIn.setReg m _ ?_
      rintro rfl
      exact h (.inl ⟨hfits.2.symm, .inr (.inr (.inr (.inr ⟨hgroup, .inl hfits.1⟩)))⟩)
  | awaitKey x =>
      refine sameIn_awaitKeyInto ?_
      rintro rfl
      exact h (.inl ⟨hfits.2.symm, .inr (.inr (.inr (.inr ⟨hgroup, .inr hfits.1⟩)))⟩)
  | setDelay x =>
      refine SameIn.withDelay m _ ?_
      rintro rfl
      exact h ⟨hgroup, hfits.1⟩
  | setSound x =>
      refine SameIn.withSound m _ ?_
      rintro rfl
      exact h ⟨hgroup, hfits.1⟩
  | advance x =>
      refine SameIn.withIndex m _ ?_
      rintro rfl
      exact h (.inr ⟨hgroup, .inl hfits.1⟩)
  | glyph x =>
      refine SameIn.withIndex m _ ?_
      rintro rfl
      exact h (.inr ⟨hgroup, .inr hfits.1⟩)
  | decimal x =>
      refine SameIn.loadBytes m _ _ ?_
      rintro a ha rfl
      exact h ⟨hgroup, .inl ⟨hfits.1, ha⟩⟩
  | dump x =>
      refine SameIn.loadBytes m _ _ ?_
      rintro a ha rfl
      rw [length_regsUpTo, ← hfits.2] at ha
      exact h ⟨hgroup, .inr ⟨hfits.1, ha⟩⟩
  | fill x => exact sameIn_fillUpTo hgroup hfits.1 hfits.2 h

/-! ## Words, steps and cycles -/

variable (hm : m.WellFormed) (h : ¬ m.Writes w part)
include hm h

theorem sameIn_carryOut {i : Option Instruction}
    (hi : ∀ j, i = some j → w.group = j.group ∧ j.Fits w) :
    m.SameIn (leftBy (m.carryOut w i)) part := by
  cases i with
  | some j => exact sameIn_apply hm.sp (hi j rfl).1 (hi j rfl).2 h
  | none => exact SameIn.refl m

theorem sameIn_execute : m.SameIn (leftBy (m.execute w)) part :=
  sameIn_carryOut hm h fun _ hi => ⟨Word.group_of_decode hi, Word.fits_of_decode hi⟩

theorem sameIn_executeGroup : m.SameIn (leftBy (m.executeGroup w)) part :=
  sameIn_carryOut hm h fun _ hi => ⟨Word.group_of_decodeGroup hi, Word.fits_of_decodeGroup hi⟩

end

/-- Fetching moves the program counter only, on which no entry of `Writes` depends. -/
theorem writes_fetched (m : Machine) (w : Word) (part : Part) :
    m.fetched.Writes w part ↔ m.Writes w part := by
  cases part <;> rfl

theorem sameIn_step {m : Machine} (hm : m.WellFormed) {part : Part}
    (h : ¬ m.Writes m.word part) : m.SameIn (leftBy m.step) part :=
  (SameIn.withPc m _).trans (sameIn_execute hm.fetched (mt (writes_fetched m _ part).1 h))

theorem sameIn_steps {part : Part} (n : Nat) : ∀ {m : Machine}, m.WellFormed →
    (∀ i, i < n → ∀ mid, m.steps i = .ok mid → ¬ mid.Writes mid.word part) →
    m.SameIn (leftBy (m.steps n)) part := by
  induction n with
  | zero => exact fun {m} _ _ => SameIn.refl m
  | succ n ih =>
      intro m hm h
      have hfirst := sameIn_step hm (h 0 (Nat.succ_pos n) m rfl)
      cases hstep : m.step with
      | ok next =>
          rw [hstep] at hfirst
          rw [steps_succ_of_ok hstep]
          refine hfirst.trans (ih (hm.step_ok hstep) ?_)
          intro i hi mid hmid
          exact h (i + 1) (Nat.succ_lt_succ hi) mid ((steps_succ_of_ok hstep i).trans hmid)
      | error halt =>
          rw [hstep] at hfirst
          rw [steps_succ_of_error hstep]
          exact hfirst

theorem SameIn.decay (m : Machine) {part : Part} (h : part ≠ .delay ∧ part ≠ .sound) :
    m.SameIn m.decay part := by
  have hdelay : m.SameIn { m with delay := countDown m.delay } part := SameIn.withDelay m _ h.1
  exact hdelay.trans (SameIn.withSound _ _ h.2)

/-! ## Calls of a host -/

/-- No word that the call executes writes the part, and neither does the call itself. -/
def Spares (m : Machine) (part : Part) : Action → Prop
  | .fetch => True
  | .step => ¬ m.Writes m.word part
  | .execute op | .executeGroup op => ¬ m.Writes (BitVec.ofNat 16 op) part
  | .cycle n => (∀ i, i < n.toNat → ∀ mid, m.steps i = .ok mid → ¬ mid.Writes mid.word part) ∧
      part ≠ .delay ∧ part ≠ .sound
  | .decay => part ≠ .delay ∧ part ≠ .sound
  | .setRegister number _ => part ≠ .register (residue 16 number)
  | .press _ | .release _ | .setKeys _ => part ≠ .keypad
  | .write addr _ => part ≠ .cell (residue 4096 addr)
  | .load values base => ∀ a ∈ Memory.block base values.length, part ≠ .cell a

def AllSpare (m : Machine) (part : Part) : List Action → Prop
  | [] => True
  | a :: actions => m.Spares part a ∧ (m.perform a).AllSpare part actions

theorem sameIn_cycle {m : Machine} (hm : m.WellFormed) {part : Part} {n : Int}
    (h : m.Spares part (.cycle n)) : m.SameIn (leftBy (m.cycle n)) part := by
  have hsteps := sameIn_steps n.toNat hm h.1
  rw [cycle]
  cases hlast : m.steps n.toNat with
  | ok last =>
      rw [hlast] at hsteps
      exact hsteps.trans (SameIn.decay last h.2)
  | error halt =>
      rw [hlast] at hsteps
      exact hsteps

theorem sameIn_perform {m : Machine} (hm : m.WellFormed) {part : Part} {a : Action}
    (h : m.Spares part a) : m.SameIn (m.perform a) part := by
  cases a with
  | fetch => exact SameIn.withPc m _
  | step => exact sameIn_step hm h
  | execute op => exact sameIn_execute hm h
  | executeGroup op => exact sameIn_executeGroup hm h
  | cycle n => exact sameIn_cycle hm h
  | decay => exact SameIn.decay m h
  | setRegister number value => exact SameIn.setReg m _ h
  | press key => exact SameIn.withKeypad m _ h
  | release key => exact SameIn.withKeypad m _ h
  | setKeys keys => exact SameIn.withKeypad m _ h
  | write addr value =>
      refine SameIn.loadBytes m [BitVec.ofInt 8 value] addr ?_
      intro a ha
      rw [List.length_singleton, Memory.block_succ, Memory.block, List.range_zero, List.map_nil,
        List.mem_singleton] at ha
      exact ha ▸ h
  | load values base =>
      refine SameIn.loadBytes m _ base ?_
      rw [List.length_map]
      exact h

theorem sameIn_performAll {part : Part} (actions : List Action) : ∀ {m : Machine}, m.WellFormed →
    m.AllSpare part actions → m.SameIn (m.performAll actions) part := by
  induction actions with
  | nil => exact fun {m} _ _ => SameIn.refl m
  | cons a actions ih =>
      intro m hm h
      exact (sameIn_perform hm h.1).trans (ih (hm.perform a) h.2)

end Machine

/-- What a call makes of the keys. -/
def Action.onKeys : Action → Keypad → Keypad
  | .press key, pad => pad.press key
  | .release key, pad => pad.release key
  | .setKeys keys, _ => .hold keys
  | _, pad => pad

namespace Machine

/-- No word writes the keypad, so only the calls for the keys do. -/
theorem keypad_perform {m : Machine} (hm : m.WellFormed) (a : Action) :
    (m.perform a).keypad = a.onKeys m.keypad := by
  have hspared : ∀ a, m.Spares .keypad a → (m.perform a).keypad = m.keypad :=
    fun _ h => (sameIn_perform hm h).symm
  cases a with
  | step => exact hspared .step id
  | execute op => exact hspared (.execute op) id
  | executeGroup op => exact hspared (.executeGroup op) id
  | cycle n => exact hspared (.cycle n) ⟨fun _ _ _ _ => id, by decide, by decide⟩
  | _ => rfl

theorem keypad_performAll (actions : List Action) : ∀ {m : Machine}, m.WellFormed →
    (m.performAll actions).keypad = actions.foldl (fun pad a => a.onKeys pad) m.keypad := by
  induction actions with
  | nil => exact fun _ => rfl
  | cons a actions ih =>
      intro m hm
      refine (ih (hm.perform a)).trans ?_
      rw [keypad_perform hm a]
      rfl

/-- In range, a step changes only parts that its word writes, whether or not it faults.  Over any
sequence of calls a part that none of them writes, by itself or through a word, holds at the end
what it held, a memory cell among them; and the keys are what the calls for them have made of them,
whatever else is called. -/
theorem sameIn_of_not_written {m : Machine} (hm : m.WellFormed) :
    (∀ part, ¬ m.Writes m.word part → m.SameIn (leftBy m.step) part) ∧
    (∀ part actions, m.AllSpare part actions → m.SameIn (m.performAll actions) part) ∧
    (∀ actions,
      (m.performAll actions).keypad = actions.foldl (fun pad a => a.onKeys pad) m.keypad) := by
  refine ⟨?_, ?_, ?_⟩
  · intro part h
    exact sameIn_step hm h
  · intro part actions h
    exact sameIn_performAll actions hm h
  · intro actions
    exact keypad_performAll actions hm

/-- Loads a register, and stores it and the next one at address 0. -/
def dumpingRom : List Byte := [0x60, 0x14, 0xF1, 0x55]

def dumping : Machine := withRom dumpingRom (.repeating [])

def whileHeld : List Action := [.press 3, .cycle 2, .release 3]

/-- The cell behind the two that are written. -/
theorem dumping_spares : dumping.AllSpare (.cell 2) whileHeld := by
  let m₀ := dumping.press 3
  let m₁ := m₀.fetched.apply (.put 0 0x14)
  have hrom : dumpingRom.length ≤ romCapacity := by decide
  have e₀ : m₀.memory = (withRom dumpingRom (.repeating [])).memory := rfl
  have e₁ : m₁.memory = (withRom dumpingRom (.repeating [])).memory := rfl
  have w₀ : m₀.word = 0x6014 := word_withRom e₀ hrom (k := 0) rfl (by decide) (by decide)
  have w₁ : m₁.word = 0xF155 := word_withRom e₁ hrom (k := 2) rfl (by decide) (by decide)
  have h₀ : m₀.step = .ok m₁ := step_of_decode w₀ rfl
  have s₁ : m₀.steps 1 = .ok m₁ := steps_succ_of_ok h₀ 0
  have hcycle : m₀.Spares (.cell 2) (.cycle 2) := by
    refine ⟨?_, by decide, by decide⟩
    intro i hi mid hmid
    have hi : i < 2 := hi
    obtain rfl | rfl : i = 0 ∨ i = 1 := by omega
    · obtain rfl : m₀ = mid := Except.ok.inj hmid
      rw [w₀]
      decide
    · obtain rfl : m₁ = mid := Except.ok.inj (s₁.symm.trans hmid)
      rw [w₁]
      decide
  have hkeys : Part.cell 2 ≠ .keypad := by decide
  exact ⟨hkeys, hcycle, hkeys, trivial⟩

theorem sameIn_of_not_written_while_held :
    dumping.WellFormed ∧ ¬ dumping.Writes dumping.word .index ∧
      dumping.SameIn (leftBy dumping.step) .index ∧ dumping.AllSpare (.cell 2) whileHeld ∧
      (dumping.performAll whileHeld).memory.read 2 = dumping.memory.read 2 ∧
      (dumping.performAll whileHeld).keypad = (dumping.keypad.press 3).release 3 := by
  have hwf : dumping.WellFormed := wellFormed_withRom _ _
  have hrom : dumpingRom.length ≤ romCapacity := by decide
  have hword : dumping.word = 0x6014 := word_withRom rfl hrom (k := 0) rfl (by decide) (by decide)
  have hindex : ¬ dumping.Writes dumping.word .index := by
    rw [hword]
    decide
  obtain ⟨hstep, hrun, hkeypad⟩ := sameIn_of_not_written hwf
  have hcell : dumping.SameIn (dumping.performAll whileHeld) (.cell 2) :=
    hrun (.cell 2) whileHeld dumping_spares
  exact ⟨hwf, hindex, hstep .index hindex, dumping_spares, hcell.symm, hkeypad whileHeld⟩

end Machine

end ChipEight
