/-
# `ChipEight.Proofs.Plain.Host` — fetching, cycles and calls of a host in plain numbers

A host fetches, steps, executes words, runs cycles, and puts values into the state
between them.  Each of these is an `Action`; its arguments are plain integers, of
any size and sign where the machine reduces them itself.  An action that fails
leaves the state as it then is, and the host goes on from there.

**Proved here.**

    an action on the plain state of a machine does what it does on
    the machine, faults included, if its calls find the stack pointer
    at a slot                                                          (`run_exec`)
    so does any sequence of them                                       (`performAll_plain_of_calls`)
    in range, calls always do                                          (`WellFormed.allCallsFit`)
    loading a ROM gives the plain state of the loaded machine          (`run_loadRom`)
-/
import ChipEight.Proofs.Plain.Dispatch
import ChipEight.Proofs.WellFormed

namespace ChipEight

/-- One call of a host. -/
inductive Action where
  | fetch
  | step
  | execute (op : Nat)
  | executeGroup (op : Nat)
  | cycle (n : Int)
  | decay
  | setRegister (number value : Int)
  | press (key : Int)
  | release (key : Int)
  | setKeys (keys : List Int)
  | write (addr value : Int)
  | load (values : List Int) (base : Int)

/-- Words have 16 bits, and only the words of four groups go to the second stage directly. -/
def Action.Admissible : Action → Prop
  | .execute op => op < 0x10000
  | .executeGroup op => op < 0x10000 ∧ op / 0x1000 ∈ [0x0, 0x8, 0xE, 0xF]
  | _ => True

namespace Machine

def attempt (m : Machine) : Action → Except Halt Machine
  | .fetch => .ok m.fetched
  | .step => m.step
  | .execute op => m.execute (BitVec.ofNat 16 op)
  | .executeGroup op => m.executeGroup (BitVec.ofNat 16 op)
  | .cycle n => m.cycle n
  | .decay => .ok m.decay
  | .setRegister number value => .ok (m.setRegister number value)
  | .press key => .ok (m.press key)
  | .release key => .ok (m.release key)
  | .setKeys keys => .ok (m.setKeys keys)
  | .write addr value => .ok (m.write addr value)
  | .load values base => .ok (m.loadBytes (values.map (BitVec.ofInt 8)) base)

/-- The machine after an action, also if it faults. -/
def perform (m : Machine) (a : Action) : Machine := leftBy (m.attempt a)

def performAll (m : Machine) (actions : List Action) : Machine := actions.foldl perform m

/-- If the word is a call, the stack pointer is not above the last slot. -/
def CallFits (m : Machine) (w : Word) : Prop := w.group = 0x2 → m.sp < 16

/-- No call that the action executes is made with the stack pointer above the last slot. -/
def CallsFit (m : Machine) : Action → Prop
  | .step => m.CallFits m.word
  | .execute op => m.CallFits (BitVec.ofNat 16 op)
  | .cycle n => ∀ i, i < n.toNat → ∀ mid, m.steps i = .ok mid → mid.CallFits mid.word
  | _ => True

def AllCallsFit (m : Machine) : List Action → Prop
  | [] => True
  | a :: actions => m.CallsFit a ∧ (m.perform a).AllCallsFit actions

theorem WellFormed.perform {m : Machine} (h : m.WellFormed) (a : Action) :
    (m.perform a).WellFormed := by
  cases a with
  | fetch => exact h.fetched
  | step => exact h.step
  | execute op => exact h.execute _
  | executeGroup op => exact h.executeGroup _
  | cycle n => exact h.cycle n
  | decay => exact h.decay
  | setRegister number value => exact h.setReg _ _
  | press key => exact h.withKeypad _
  | release key => exact h.withKeypad _
  | setKeys keys => exact h.withKeypad _
  | write addr value => exact h.withMemory _
  | load values base => exact h.withMemory _

theorem WellFormed.performAll {m : Machine} (h : m.WellFormed) (actions : List Action) :
    (m.performAll actions).WellFormed := by
  induction actions generalizing m with
  | nil => exact h
  | cons a actions ih => exact ih (h.perform a)

theorem WellFormed.callsFit {m : Machine} (h : m.WellFormed) (a : Action) : m.CallsFit a := by
  cases a with
  | step => exact fun _ => h.sp.2
  | execute op => exact fun _ => h.sp.2
  | cycle n =>
      intro i _ mid hmid _
      have hleft := h.steps i
      rw [hmid] at hleft
      exact hleft.sp.2
  | _ => exact trivial

theorem WellFormed.allCallsFit {m : Machine} (h : m.WellFormed) (actions : List Action) :
    m.AllCallsFit actions := by
  induction actions generalizing m with
  | nil => exact trivial
  | cons a actions ih => exact ⟨h.callsFit a, ih (h.perform a)⟩

theorem allCallsFit_append (before after : List Action) : ∀ m : Machine,
    m.AllCallsFit (before ++ after) ↔
      m.AllCallsFit before ∧ (m.performAll before).AllCallsFit after := by
  induction before with
  | nil => exact fun m => ⟨fun h => ⟨trivial, h⟩, fun h => h.2⟩
  | cons a before ih =>
      intro m
      show m.CallsFit a ∧ (m.perform a).AllCallsFit (before ++ after) ↔
        (m.CallsFit a ∧ (m.perform a).AllCallsFit before) ∧
          ((m.perform a).performAll before).AllCallsFit after
      rw [ih, and_assoc]

/-! ## The stack pointer does not become negative -/

section

variable {m : Machine} (h : 0 ≤ m.sp)
include h

theorem sp_nonneg_apply (i : Instruction) : 0 ≤ (m.apply i).sp := by
  cases i with
  | ret => exact Int.natCast_nonneg _
  | call target => exact Int.emod_nonneg _ (by decide)
  | skip c =>
      rw [apply]
      split
      · exact h
      · exact h
  | combine o x y =>
      simp only [apply, combineInto]
      split
      · exact h
      · exact h
  | awaitKey x =>
      rw [apply, awaitKeyInto]
      split
      · exact h
      · exact h
  | fill x =>
      simp only [apply, fillUpTo]
      exact h
  | _ => exact h

theorem sp_nonneg_carryOut (w : Word) (i : Option Instruction) :
    0 ≤ (leftBy (m.carryOut w i)).sp := by
  cases i with
  | some i => exact sp_nonneg_apply h i
  | none => exact h

theorem sp_nonneg_step : 0 ≤ (leftBy m.step).sp :=
  sp_nonneg_carryOut (m := m.fetched) h m.word m.word.decode

omit h in
theorem sp_nonneg_steps (n : Nat) : ∀ {m : Machine}, 0 ≤ m.sp → 0 ≤ (leftBy (m.steps n)).sp := by
  induction n with
  | zero => exact fun h => h
  | succ n ih =>
      intro m h
      have hone := sp_nonneg_step h
      cases hstep : m.step with
      | ok next =>
          rw [hstep] at hone
          rw [steps, hstep]
          exact ih hone
      | error halt =>
          rw [hstep] at hone
          rw [steps, hstep]
          exact hone

theorem sp_nonneg_perform (a : Action) : 0 ≤ (m.perform a).sp := by
  cases a with
  | step => exact sp_nonneg_step h
  | execute op => exact sp_nonneg_carryOut h _ _
  | executeGroup op => exact sp_nonneg_carryOut h _ _
  | cycle n =>
      have hlast := sp_nonneg_steps n.toNat h
      rw [perform, attempt, cycle]
      cases hsteps : m.steps n.toNat with
      | ok last =>
          rw [hsteps] at hlast
          exact hlast
      | error halt =>
          rw [hsteps] at hlast
          exact hlast
  | setKeys keys =>
      simp only [perform, attempt, leftBy, setKeys]
      exact h
  | _ => exact h

omit h in
theorem sp_nonneg_performAll (actions : List Action) :
    ∀ {m : Machine}, 0 ≤ m.sp → 0 ≤ (m.performAll actions).sp := by
  induction actions with
  | nil => exact id
  | cons a actions ih => exact fun h => ih (sp_nonneg_perform h a)

end

end Machine

namespace Plain

/-! ## Running -/

/-- Reads the big-endian word at the program counter and moves on by two. -/
def fetch : Exec Nat := do
  let high ← read (← get).pc
  let low ← read ((← get).pc + 1)
  modify fun s => { s with pc := (s.pc + 2) % 4096 }
  return high <<< 8 ||| low

def step : Exec Nat := do
  let op ← fetch
  execute op
  return op

def steps : Nat → Exec Unit
  | 0 => return ()
  | n + 1 => do
      let _ ← step
      steps n

def decay : Exec Unit := do
  modify fun s => { s with delay := if 0 < s.delay then s.delay - 1 else s.delay }
  modify fun s => { s with sound := if 0 < s.sound then s.sound - 1 else s.sound }

def cycle (n : Int) : Exec Unit := do
  steps n.toNat
  decay

def putKey (key : Int) (flag : Bool) : Exec Unit := do
  let keypad ← replaced (← get).keypad (key % 16) flag
  modify fun s => { s with keypad }

/-- Holds the listed keys, each taken modulo 16, and no others. -/
def setKeys (keys : List Int) : Exec Unit :=
  modify fun s => { s with
    keypad := (List.range 16).map fun k : Nat => decide ((k : Int) ∈ keys.map (· % 16)) }

/-- What an action runs. -/
def exec : Action → Exec Unit
  | .fetch => do let _ ← fetch
  | .step => do let _ ← step
  | .execute op => execute op
  | .executeGroup op => executeGroup op
  | .cycle n => cycle n
  | .decay => decay
  | .setRegister number value => setRegister number value
  | .press key => putKey key true
  | .release key => putKey key false
  | .setKeys keys => setKeys keys
  | .write addr value => write addr value
  | .load values base => load values base

/-- The state that a computation leaves, also if it fails. -/
def leftBy {α : Type} : EStateM.Result Failure Plain α → Plain
  | .ok _ s => s
  | .error _ s => s

def perform (s : Plain) (a : Action) : Plain := leftBy ((exec a).run s)

def performAll (s : Plain) (actions : List Action) : Plain := actions.foldl perform s

/-! ## Starting -/

def blank (source : RandomSource) : Plain where
  registers := List.replicate 16 0
  memory := List.replicate 4096 0
  stack := List.replicate 16 0
  keypad := List.replicate 16 false
  video := List.replicate 32 0
  index := 0
  pc := 0
  sp := 0
  delay := 0
  sound := 0
  source := source

/-- Loads font and ROM and goes to the start of the ROM; run on a blank state. -/
def loadRom (rom : List Byte) : Exec Unit := do
  load (Font.bytes.map fun b => (b.toNat : Int)) Font.base
  load (rom.map fun b => (b.toNat : Int)) romStart
  modify fun s => { s with pc := romStart }

theorem plain_blank (source : RandomSource) : (Machine.blank source).plain = blank source := by
  have hbyte : BitVec.toNat (0 : Byte) = 0 := rfl
  have hrow : BitVec.toNat (0 : Row) = 0 := rfl
  simp only [Machine.plain, Machine.blank, blank, Memory.toList, Memory.zero, Keypad.empty,
    Screen.blank, Vector.toList_replicate, List.map_replicate, hbyte, hrow, -List.reduceReplicate]

theorem wellFormed_blank (source : RandomSource) : (blank source).WellFormed := by
  rw [← plain_blank]
  exact wellFormed_plain (Machine.wellFormed_blank source)

theorem map_ofInt_toNat (bytes : List Byte) :
    (bytes.map fun b => (b.toNat : Int)).map (BitVec.ofInt 8) = bytes := by
  have hid : ∀ b ∈ bytes, (BitVec.ofInt 8 ∘ fun b : Byte => (b.toNat : Int)) b = id b := by
    intro b _
    show BitVec.ofInt 8 (b.toNat : Int) = b
    rw [BitVec.ofInt_natCast, BitVec.ofNat_toNat, BitVec.setWidth_eq]
  rw [List.map_map, List.map_congr_left hid, List.map_id]

theorem run_load_bytes (m : Machine) (bytes : List Byte) (base : Int) :
    (load (bytes.map fun b => (b.toNat : Int)) base).run m.plain =
      .ok () (m.loadBytes bytes base).plain := by
  rw [run_load, map_ofInt_toNat]

-- Any font and any machine: a font and a blank machine that are spelled out get computed.
theorem run_load_both (font rom : List Byte) (m : Machine) :
    (do
      load (font.map fun b => (b.toNat : Int)) Font.base
      load (rom.map fun b => (b.toNat : Int)) romStart
      modify fun s => { s with pc := romStart } : Exec Unit).run m.plain =
      .ok () { (m.loadBytes font Font.base).loadBytes rom romStart with pc := romStart }.plain := by
  simp only [EStateM.run_bind, run_load_bytes, EStateM.run_modify]
  rfl

theorem run_loadRom (rom : List Byte) (source : RandomSource) :
    (loadRom rom).run (blank source) = .ok () (Machine.withRom rom source).plain := by
  rw [← plain_blank]
  exact run_load_both Font.bytes rom (Machine.blank source)

/-! ## Agreement with the machine -/

variable (m : Machine)

theorem run_fetch : fetch.run m.plain = .ok m.word.toNat m.fetched.plain := by
  have hword : (m.memory.read m.pc).toNat <<< 8 ||| (m.memory.read (m.pc + 1)).toNat =
      m.word.toNat := (BitVec.toNat_append _ _).symm
  simp only [fetch, EStateM.run_bind, EStateM.run_get]
  rw [show m.plain.pc = m.pc from rfl, run_read]
  simp only
  rw [show m.plain.pc = m.pc from rfl, run_read]
  simp only [EStateM.run_modify, EStateM.run_pure, hword]
  rfl

theorem run_step {m : Machine} (hsp : 0 ≤ m.sp) (hcall : m.CallFits m.word) :
    step.run m.plain = outcome m.word.toNat m.step := by
  have hexecute := run_execute m.word m.fetched fun hgroup => ⟨hsp, hcall hgroup⟩
  simp only [step, EStateM.run_bind, run_fetch, hexecute, Machine.step]
  cases m.fetched.execute m.word <;> rfl

theorem run_steps (n : Nat) : ∀ {m : Machine}, 0 ≤ m.sp →
    (∀ i, i < n → ∀ mid, m.steps i = .ok mid → mid.CallFits mid.word) →
    (steps n).run m.plain = outcome () (m.steps n) := by
  induction n with
  | zero => exact fun _ _ => rfl
  | succ n ih =>
      intro m hsp hcalls
      simp only [steps, EStateM.run_bind, run_step hsp (hcalls 0 (Nat.succ_pos n) m rfl),
        Machine.steps]
      have hone := Machine.sp_nonneg_step hsp
      cases hstep : m.step with
      | ok next =>
          rw [hstep] at hone
          refine ih hone ?_
          intro i hi mid hmid
          refine hcalls (i + 1) (Nat.succ_lt_succ hi) mid ?_
          rw [Machine.steps, hstep]
          exact hmid
      | error halt => rfl

theorem run_decay : decay.run m.plain = .ok () m.decay.plain := rfl

theorem run_cycle {m : Machine} (hsp : 0 ≤ m.sp) {n : Int} (hcalls : m.CallsFit (.cycle n)) :
    (cycle n).run m.plain = outcome () (m.cycle n) := by
  simp only [cycle, EStateM.run_bind, run_steps n.toNat hsp hcalls, Machine.cycle]
  cases m.steps n.toNat with
  | ok last => exact run_decay last
  | error halt => rfl

theorem run_putKey (key : Int) (flag : Bool) :
    (putKey key flag).run m.plain =
      .ok () (if flag then m.press key else m.release key).plain := by
  have hkey : key % 16 = (residue 16 key).val := (residue_val 16 key).symm
  have hlt : (residue 16 key).val < m.keypad.flags.toList.length := by
    rw [Vector.length_toList]
    exact (residue 16 key).isLt
  simp only [putKey, EStateM.run_bind, EStateM.run_get, hkey]
  rw [show m.plain.keypad = m.keypad.flags.toList from rfl, run_replaced hlt,
    ← Vector.toList_set (residue 16 key).isLt]
  cases flag with
  | true => rfl
  | false => rfl

theorem run_setKeys (keys : List Int) :
    (setKeys keys).run m.plain = .ok () (m.setKeys keys).plain := by
  have hflags : ((List.range 16).map fun k : Nat => decide ((k : Int) ∈ keys.map (· % 16))) =
      (Keypad.hold keys).flags.toList := by
    apply List.ext_getElem
    · simp
    · intro k hk _
      have hk16 : k < 16 := by simpa using hk
      simp only [Keypad.hold, List.getElem_map, List.getElem_range, Vector.getElem_toList,
        Vector.getElem_ofFn]
      rw [Bool.eq_iff_iff, decide_eq_true_iff, List.mem_map, List.any_eq_true]
      constructor
      · rintro ⟨key, hmem, heq⟩
        refine ⟨key, hmem, beq_iff_eq.2 (Fin.ext ?_)⟩
        show (residue 16 key).val = k
        exact Int.ofNat_inj.1 ((residue_val 16 key).trans heq)
      · rintro ⟨key, hmem, heq⟩
        refine ⟨key, hmem, ?_⟩
        have hval := residue_val 16 key
        rw [beq_iff_eq.1 heq] at hval
        exact hval.symm
  simp only [setKeys, EStateM.run_modify, hflags, Machine.plain, Machine.setKeys]

/-- An action on the plain state of a machine ends as it ends on the machine, and leaves the plain
state of what it leaves there. -/
theorem run_exec {m : Machine} (hsp : 0 ≤ m.sp) {a : Action} (hcalls : m.CallsFit a)
    (ha : a.Admissible) : (exec a).run m.plain = outcome () (m.attempt a) := by
  cases a with
  | fetch =>
      simp only [exec, EStateM.run_bind, run_fetch]
      rfl
  | step =>
      simp only [exec, EStateM.run_bind, run_step hsp hcalls, Machine.attempt]
      cases m.step <;> rfl
  | execute op =>
      have hrun := run_execute (BitVec.ofNat 16 op) m fun hgroup => ⟨hsp, hcalls hgroup⟩
      rwa [toNat_ofNat_word ha] at hrun
  | executeGroup op => exact run_executeGroup_ofNat m ha.1 ha.2
  | cycle n => exact run_cycle hsp hcalls
  | decay => exact run_decay m
  | setRegister number value => exact run_setRegister m number value
  | press key => exact run_putKey m key true
  | release key => exact run_putKey m key false
  | setKeys keys => exact run_setKeys m keys
  | write addr value => exact run_write m addr value
  | load values base => exact run_load m values base

theorem leftBy_outcome {α : Type} (a : α) (r : Except Halt Machine) :
    leftBy (outcome a r) = (Machine.leftBy r).plain := by
  cases r <;> rfl

/-- Nothing goes wrong on a state in range but that a word has no instruction. -/
theorem failure_of_exec {s : Plain} (h : s.WellFormed) {a : Action} (ha : a.Admissible)
    {f : Failure} {left : Plain} (hrun : (exec a).run s = .error f left) :
    ∃ r, f = .invalidOpcode r := by
  obtain ⟨m, hm, rfl⟩ := wellFormed_iff.1 h
  rw [run_exec hm.sp.1 (hm.callsFit a) ha] at hrun
  cases hattempt : m.attempt a with
  | ok next =>
      rw [hattempt] at hrun
      cases hrun
  | error halt =>
      rw [hattempt] at hrun
      cases hrun
      exact ⟨_, rfl⟩

theorem perform_plain_of_calls {m : Machine} (hsp : 0 ≤ m.sp) {a : Action} (hcalls : m.CallsFit a)
    (ha : a.Admissible) : m.plain.perform a = (m.perform a).plain := by
  rw [perform, run_exec hsp hcalls ha, leftBy_outcome]
  rfl

theorem performAll_plain_of_calls {m : Machine} (hsp : 0 ≤ m.sp) {actions : List Action}
    (hcalls : m.AllCallsFit actions) (ha : ∀ a ∈ actions, a.Admissible) :
    m.plain.performAll actions = (m.performAll actions).plain := by
  induction actions generalizing m with
  | nil => rfl
  | cons a actions ih =>
      obtain ⟨hfirst, hrest⟩ := List.forall_mem_cons.1 ha
      obtain ⟨hcall, hcalls⟩ := hcalls
      show (m.plain.perform a).performAll actions = ((m.perform a).performAll actions).plain
      rw [perform_plain_of_calls hsp hcall hfirst]
      exact ih (Machine.sp_nonneg_perform hsp a) hcalls hrest

theorem perform_plain {m : Machine} (h : m.WellFormed) {a : Action} (ha : a.Admissible) :
    m.plain.perform a = (m.perform a).plain :=
  perform_plain_of_calls h.sp.1 (h.callsFit a) ha

theorem performAll_plain {m : Machine} (h : m.WellFormed) {actions : List Action}
    (ha : ∀ a ∈ actions, a.Admissible) :
    m.plain.performAll actions = (m.performAll actions).plain :=
  performAll_plain_of_calls h.sp.1 (h.allCallsFit actions) ha

end Plain

end ChipEight
