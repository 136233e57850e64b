/-
# `ChipEight.Proofs.Congruence` — addresses modulo 4096, slots modulo 16

A host may put any number into index, program counter, stack and stack pointer.  Some
instructions reduce them when they write them and some only when they use them: a
return hands an entry on as it is, and a call made without a fetch stores whatever the
program counter holds.  So two machines that differ in the representatives of these
numbers do not become equal; they stay congruent, and nothing that a host sees of them
tells them apart.

One thing does: in plain numbers a call writes the slot numbered by the stack pointer,
and above the last slot there is none.  The sequences considered make no such call.

**Proved here.**

    congruent is equal but for the representatives                  (`congruent_iff`)
    a call of a host ends in the same way on congruent machines     (`Congruent.attempt`)
    what a call returns in plain numbers                            (`run_answer`)
    so in plain numbers every call of any sequence ends in the
    same way, and the machines stay congruent throughout            (`congruent_calls`)
-/
import ChipEight.Proofs.Agreement
import ChipEight.Proofs.Plain.Host

namespace ChipEight

namespace Machine

/-! ## Congruent machines -/

/-- No component. -/
def nothing : Component → Prop := fun _ => False

/-- Agreement in every component: index, program counter and stack entries modulo 4096, the stack
pointer modulo 16, and everything else as it is. -/
def Congruent (m m' : Machine) : Prop := Agree nothing m m'

theorem congruent_iff {m m' : Machine} :
    m.Congruent m' ↔
      { m with stack := m'.stack, index := m'.index, pc := m'.pc, sp := m'.sp } = m' ∧
        (∀ slot : Fin 16, m.stack.get slot % 4096 = m'.stack.get slot % 4096) ∧
        m.index % 4096 = m'.index % 4096 ∧ m.pc % 4096 = m'.pc % 4096 ∧ m.sp % 16 = m'.sp % 16 := by
  constructor
  · intro h
    refine ⟨?_, h.stack, h.index, h.pc, h.sp⟩
    have hmemory : m.memory = m'.memory := Memory.eq_of_read fun addr => h.memory addr id
    rw [h.registers, hmemory, h.keypad id, h.screen id, h.delay id, h.sound id, h.source id]
  · rintro ⟨hrest, hstack, hindex, hpc, hsp⟩
    rw [← hrest]
    exact ⟨rfl, fun _ _ => rfl, hstack, fun _ => rfl, fun _ => rfl, hindex, hpc, hsp, fun _ => rfl,
      fun _ => rfl, fun _ => rfl⟩

/-- What the host is given by a call that completes: a fetch and a step return the word. -/
def returned (m : Machine) : Action → Option Nat
  | .fetch | .step => some m.word.toNat
  | _ => none

namespace Congruent

variable {m m' : Machine} (h : m.Congruent m')
include h

theorem step : m.word = m'.word ∧ SameOutcome nothing m.step m'.step := by
  obtain ⟨hword, hstep⟩ := Agree.step h fun _ _ => id
  exact ⟨hword, hstep.mono fun _ => hidden_of_unwritten⟩

theorem execute (w : Word) : SameOutcome nothing (m.execute w) (m'.execute w) :=
  (Agree.execute h fun _ _ => id).mono fun _ => hidden_of_unwritten

theorem withKeypad (keypad : Keypad) :
    Congruent { m with keypad } { m' with keypad } :=
  { h with keypad := fun _ => rfl }

theorem attempt {a : Action} (ha : a.Admissible) :
    SameOutcome nothing (m.attempt a) (m'.attempt a) := by
  cases a with
  | fetch => exact .ok h.skipNext
  | step => exact h.step.2
  | execute op => exact h.execute _
  | executeGroup op =>
      have hin := Plain.isGrouped_ofNat ha.1 ha.2
      show SameOutcome nothing (m.executeGroup _) (m'.executeGroup _)
      rw [m.executeGroup_eq_execute hin, m'.executeGroup_eq_execute hin]
      exact h.execute _
  | cycle n => exact Agree.cycle h fun _ _ _ _ _ _ => id
  | decay => exact .ok h.decay
  | setRegister number value => exact .ok (h.setReg _ _)
  | press key =>
      show SameOutcome nothing (.ok { m with keypad := m.keypad.press key })
        (.ok { m' with keypad := m'.keypad.press key })
      rw [h.keypad id]
      exact .ok (h.withKeypad _)
  | release key =>
      show SameOutcome nothing (.ok { m with keypad := m.keypad.release key })
        (.ok { m' with keypad := m'.keypad.release key })
      rw [h.keypad id]
      exact .ok (h.withKeypad _)
  | setKeys keys => exact .ok (h.withKeypad _)
  | write addr value => exact .ok (h.loadBytes [BitVec.ofInt 8 value] rfl)
  | load values base => exact .ok (h.loadBytes _ rfl)

theorem perform {a : Action} (ha : a.Admissible) : (m.perform a).Congruent (m'.perform a) :=
  (h.attempt ha).leftBy

omit h in
theorem performAll {actions : List Action} (ha : ∀ a ∈ actions, a.Admissible) :
    ∀ {m m' : Machine}, m.Congruent m' →
      (m.performAll actions).Congruent (m'.performAll actions) := by
  induction actions with
  | nil => exact id
  | cons a actions ih =>
      obtain ⟨hfirst, hrest⟩ := List.forall_mem_cons.1 ha
      intro m m' h
      exact ih hrest (h.perform hfirst)

theorem returned (a : Action) : m.returned a = m'.returned a := by
  cases a with
  | fetch => exact congrArg (fun w : Word => some w.toNat) h.step.1
  | step => exact congrArg (fun w : Word => some w.toNat) h.step.1
  | _ => rfl

end Congruent

end Machine

namespace Plain

/-! ## Calls in plain numbers -/

/-- What an action runs, with the value that it returns to the host. -/
def answer : Action → Exec (Option Nat)
  | .fetch => do return some (← fetch)
  | .step => do return some (← step)
  | a => do
      exec a
      return none

theorem run_answer {m : Machine} (hsp : 0 ≤ m.sp) {a : Action} (hcalls : m.CallsFit a)
    (ha : a.Admissible) : (answer a).run m.plain = outcome (m.returned a) (m.attempt a) := by
  have hexec := run_exec hsp hcalls ha
  cases a with
  | fetch =>
      simp only [answer, EStateM.run_bind, run_fetch]
      rfl
  | step =>
      simp only [answer, EStateM.run_bind, run_step hsp hcalls]
      show _ = outcome (some m.word.toNat) m.step
      cases m.step <;> rfl
  | _ =>
      simp only [answer, EStateM.run_bind, hexec]
      cases m.attempt _ <;> rfl

/-- Two calls that return the same value, or that fail with the same report of an unassigned word,
and leave the plain states of congruent machines. -/
inductive SameAnswer :
    EStateM.Result Failure Plain (Option Nat) → EStateM.Result Failure Plain (Option Nat) → Prop
  | returned (value : Option Nat) {next next' : Machine} (h : next.Congruent next') :
      SameAnswer (.ok value next.plain) (.ok value next'.plain)
  | unassigned (report : Report) {left left' : Machine} (h : left.Congruent left') :
      SameAnswer (.error (.invalidOpcode report) left.plain)
        (.error (.invalidOpcode report) left'.plain)

theorem sameAnswer_of_sameOutcome {r r' : Except Halt Machine}
    (h : Machine.SameOutcome Machine.nothing r r') (value : Option Nat) :
    SameAnswer (outcome value r) (outcome value r') := by
  cases h with
  | ok h => exact .returned value h
  | error fault h => exact .unassigned (fault.report 0) h

/-- Two congruent machines, with stack pointers that are not negative, take the same calls in the
same order, and no call instruction is executed on either while its stack pointer is above the last
slot.  Then each of the calls returns the same value on both or fails with the same word and address
on both, and before and after each of them the machines are congruent. -/
theorem congruent_calls {m m' : Machine} (h : m.Congruent m') (hsp : 0 ≤ m.sp) (hsp' : 0 ≤ m'.sp)
    {actions : List Action} (ha : ∀ a ∈ actions, a.Admissible) (hcalls : m.AllCallsFit actions)
    (hcalls' : m'.AllCallsFit actions) :
    (∀ before a after, actions = before ++ a :: after →
      SameAnswer ((answer a).run (m.plain.performAll before))
        ((answer a).run (m'.plain.performAll before))) ∧
    (∀ before after, actions = before ++ after →
      (m.performAll before).Congruent (m'.performAll before) ∧
        m.plain.performAll before = (m.performAll before).plain ∧
        m'.plain.performAll before = (m'.performAll before).plain) := by
  have hstates : ∀ before after, actions = before ++ after →
      (m.performAll before).Congruent (m'.performAll before) ∧
        m.plain.performAll before = (m.performAll before).plain ∧
        m'.plain.performAll before = (m'.performAll before).plain := by
    rintro before after rfl
    have hbefore : ∀ a ∈ before, a.Admissible := fun a hmem => ha a (List.mem_append_left _ hmem)
    have hfits := ((Machine.allCallsFit_append before after m).1 hcalls).1
    have hfits' := ((Machine.allCallsFit_append before after m').1 hcalls').1
    exact ⟨h.performAll hbefore, performAll_plain_of_calls hsp hfits hbefore,
      performAll_plain_of_calls hsp' hfits' hbefore⟩
  refine ⟨?_, hstates⟩
  rintro before a after rfl
  obtain ⟨hcongruent, hplain, hplain'⟩ := hstates before (a :: after) rfl
  have hadmissible : a.Admissible := ha a (by simp)
  have hfits := ((Machine.allCallsFit_append before (a :: after) m).1 hcalls).2.1
  have hfits' := ((Machine.allCallsFit_append before (a :: after) m').1 hcalls').2.1
  rw [hplain, hplain', run_answer (Machine.sp_nonneg_performAll before hsp) hfits hadmissible,
    run_answer (Machine.sp_nonneg_performAll before hsp') hfits' hadmissible,
    ← hcongruent.returned a]
  exact sameAnswer_of_sameOutcome (hcongruent.attempt hadmissible) _

/-- A return to the first stack entry, at the start of a ROM. -/
def returning : Machine :=
  { Machine.withRom [0x00, 0xEE] (.repeating []) with sp := 1, index := 0xFFF }

/-- The same machine with other representatives everywhere. -/
def returningAbove : Machine :=
  { returning with
    stack := Vector.replicate 16 0x1000, index := 0x1FFF, pc := 0x1200, sp := 17 }

/-- A return, a call made without a fetch, and an unassigned word. -/
def returningCalls : List Action :=
  [.step, .execute 0xF31E, .execute 0x2345, .execute 0xF0FF, .decay]

section

variable {m : Machine} (hword : m.word = 0x00EE)
include hword

theorem perform_step_of_return : m.perform .step = m.fetched.resume := by
  show Machine.leftBy m.step = m.fetched.resume
  rw [Machine.step_of_decode hword rfl]
  rfl

theorem allCallsFit_of_return : m.AllCallsFit returningCalls := by
  refine ⟨?_, ?_, ?_, ?_, trivial, trivial⟩
  · rw [Machine.CallsFit, hword]
    exact nofun
  · exact nofun
  · intro _
    rw [perform_step_of_return hword]
    exact Int.ofNat_lt.2 (residue 16 (m.sp - 1)).isLt
  · exact nofun

end

/-- The program counter that the return takes from the stack differs, and stays congruent. -/
theorem congruent_calls_after_return :
    returning.Congruent returningAbove ∧ 0 ≤ returning.sp ∧ 0 ≤ returningAbove.sp ∧
      (∀ a ∈ returningCalls, a.Admissible) ∧ returning.AllCallsFit returningCalls ∧
      returningAbove.AllCallsFit returningCalls ∧
      (returning.perform .step).pc = 0 ∧ (returningAbove.perform .step).pc = 0x1000 ∧
      (returning.performAll returningCalls).Congruent
        (returningAbove.performAll returningCalls) := by
  have hrom : [0x00, 0xEE].length ≤ romCapacity := by decide
  have hmemory : returning.memory = (Machine.withRom [0x00, 0xEE] (.repeating [])).memory := rfl
  have hcongruent : returning.Congruent returningAbove := by
    refine Machine.congruent_iff.2 ⟨rfl, ?_, by decide, by decide, by decide⟩
    intro slot
    show (Vector.replicate 16 (0 : Int)).get slot % 4096 =
      (Vector.replicate 16 (0x1000 : Int)).get slot % 4096
    simp [Vector.get]
  have hcalls : ∀ a ∈ returningCalls, a.Admissible := by
    simp [returningCalls, Action.Admissible]
  have hword : returning.word = 0x00EE :=
    Machine.word_withRom hmemory hrom (k := 0) rfl (by decide) (by decide)
  have hword' : returningAbove.word = 0x00EE := hcongruent.step.1.symm.trans hword
  have hfits := allCallsFit_of_return hword
  have hfits' := allCallsFit_of_return hword'
  obtain ⟨-, hstates⟩ := congruent_calls hcongruent (by decide) (by decide) hcalls hfits hfits'
  refine ⟨hcongruent, by decide, by decide, hcalls, hfits, hfits', ?_, ?_,
    (hstates returningCalls [] (List.append_nil _).symm).1⟩
  · rw [perform_step_of_return hword]
    rfl
  · rw [perform_step_of_return hword']
    rfl

end Plain

end ChipEight
