/-
# `ChipEight.Proofs.TimerRate` — timers count cycles, not instructions

A cycle counts the timers down once, however many instructions it executes.  So two
hosts that ask for the same number of instructions, in cycles of other sizes, count the
timers down at other places and another number of times.  Of the timers only the delay
timer is ever read, and by one instruction: in a run without it nothing else shows how
the instructions were divided into cycles.

Each series of cycles is compared with the run of its instructions alone, in which the
timers never count down.

**Proved here.**

    a series of cycles executes what its instructions alone execute,
    and ends as they end, but for the timers                           (`callCycles_of_unread`)
    so the division into cycles does not matter                        (`callCycles_of_same_total`)
-/
import ChipEight.Proofs.Devices

namespace ChipEight.Machine

/-- How many instructions a series of cycles asks for; a size below zero asks for none. -/
def asked : List Int → Nat
  | [] => 0
  | batch :: batches => batch.toNat + asked batches

/-- The two timers. -/
def timers : Device → Prop
  | .delay | .sound => True
  | _ => False

theorem unread_timers {entries : List Entry} :
    Unread timers entries ↔ ∀ e ∈ entries, ¬ e.word.Reads .delay := by
  constructor
  · exact fun h e he hread => h e he .delay hread trivial
  · intro h e he d hread hd
    cases d with
    | delay => exact h e he hread
    | sound => exact hread
    | _ => exact hd

theorem WellFormed.callCycles (batches : List Int) : ∀ {m : Machine}, m.WellFormed →
    (m.callCycles batches).machine.WellFormed := by
  induction batches with
  | nil => exact id
  | cons batch batches ih =>
      intro m hm
      have hleft := hm.cycle batch
      cases hcycle : m.cycle batch with
      | ok next =>
          rw [hcycle] at hleft
          rw [callCycles_cons_ok hcycle]
          exact ih hleft
      | error halt =>
          rw [hcycle] at hleft
          rw [callCycles_cons_error hcycle]
          exact hleft

/-- Counting the timers down on one side only is not noticed. -/
theorem Agree.decay_left {m m' : Machine} (h : Agree (devices timers) m m') :
    Agree (devices timers) m.decay m' :=
  { h with
    delay := fun hc => absurd ⟨.delay, trivial, rfl⟩ hc
    sound := fun hc => absurd ⟨.sound, trivial, rfl⟩ hc }

/-- By induction on the cycles.  The instructions alone are those of the first cycle and then those
of the other cycles, without the count-down in between. -/
theorem callCycles_of_unread (batches : List Int) : ∀ {m m' : Machine},
    Agree (devices timers) m m' → m.WellFormed → m'.WellFormed →
    Unread timers (m.executedIn batches) ∨ Unread timers (m'.executed (asked batches)) →
    m.executedIn batches = m'.executed (asked batches) ∧
      (m.callCycles batches).fault = faultOf (m'.steps (asked batches)) ∧
      Agree (devices timers) (m.callCycles batches).machine
        (leftBy (m'.steps (asked batches))) := by
  induction batches with
  | nil => exact fun h _ _ _ => ⟨rfl, rfl, h⟩
  | cons batch batches ih =>
      intro m m' h hm hm' hunread
      rw [asked, executed_add] at hunread ⊢
      rw [steps_add]
      have hfirst : Unread timers (m.executed batch.toNat) ∨
          Unread timers (m'.executed batch.toNat) :=
        hunread.imp (fun hquiet e he => hquiet e (List.mem_append_left _ he))
          (fun hquiet e he => hquiet e (List.mem_append_left _ he))
      obtain ⟨hentries, houtcome⟩ := h.executed_of_unread batch.toNat hm hm' hfirst
      have hleft := hm.steps batch.toNat
      have hleft' := hm'.steps batch.toNat
      cases hsteps : m.steps batch.toNat with
      | ok last =>
          rw [hsteps] at houtcome hleft
          generalize m'.steps batch.toNat = r' at houtcome hleft' hunread
          cases houtcome with
          | ok hlast =>
              have hcycle := cycle_of_steps hsteps
              rw [executedIn_cons_of_ok hcycle] at hunread ⊢
              rw [callCycles_cons_ok hcycle]
              have hrest := hunread.imp
                (fun hquiet e he => hquiet e (List.mem_append_right _ he))
                (fun hquiet e he => hquiet e (List.mem_append_right _ he))
              obtain ⟨hmore, hend⟩ := ih hlast.decay_left (WellFormed.decay hleft) hleft' hrest
              exact ⟨by rw [hentries, hmore], hend⟩
      | error halt =>
          rw [hsteps] at houtcome
          generalize m'.steps batch.toNat = r' at houtcome
          cases houtcome with
          | error fault h =>
              have hcycle := cycle_of_halted hsteps
              rw [executedIn_cons_of_error hcycle, callCycles_cons_error hcycle]
              exact ⟨by rw [hentries, List.append_nil], rfl, h⟩

theorem EqualOutside.eq_with_timers {m m' : Machine} (h : EqualOutside timers m m') :
    { m with delay := m'.delay, sound := m'.sound } = m' := by
  show Machine.mk m.registers m.memory m.stack m.keypad m.screen m.index m.pc m.sp m'.delay m'.sound
    m.source = m'
  rw [h.registers, h.memory, h.stack, h.keypad id, h.screen id, h.index, h.pc, h.sp, h.source id]

/-- Two series of cycles ask for the same number of instructions of a machine in range, and the
first, as far as it comes, executes none that reads the delay timer.  Then the second executes the
same instructions, in the same order and at the same addresses; it completes if the first does, and
otherwise ends with the same fault; and the machines at the end are equal but for the two timers. -/
theorem callCycles_of_same_total {m : Machine} (hm : m.WellFormed) {batches batches' : List Int}
    (htotal : asked batches = asked batches')
    (hunread : ∀ e ∈ m.executedIn batches, ¬ e.word.Reads .delay) :
    let calls := m.callCycles batches
    let calls' := m.callCycles batches'
    m.executedIn batches' = m.executedIn batches ∧ calls'.fault = calls.fault ∧
      (calls.completed = batches.length ↔ calls'.completed = batches'.length) ∧
      { calls.machine with delay := calls'.machine.delay, sound := calls'.machine.sound } =
        calls'.machine := by
  intro calls calls'
  have hquiet : Unread timers (m.executedIn batches) := unread_timers.2 hunread
  obtain ⟨hentries, hfault, hagree⟩ :=
    callCycles_of_unread batches (Agree.refl m) hm hm (.inl hquiet)
  rw [hentries, htotal] at hquiet
  obtain ⟨hentries', hfault', hagree'⟩ :=
    callCycles_of_unread batches' (Agree.refl m) hm hm (.inr hquiet)
  rw [htotal] at hentries hfault hagree
  have hsame : calls'.fault = calls.fault := hfault'.trans hfault.symm
  have hequal : EqualOutside timers calls.machine calls'.machine :=
    (hagree.trans hagree'.symm).equalOutside (hm.callCycles batches) (hm.callCycles batches')
  refine ⟨hentries'.trans hentries.symm, hsame, ?_, hequal.eq_with_timers⟩
  rw [← fault_eq_none_iff, ← fault_eq_none_iff, hsame]

/-- Puts 5 in a register and from there in the delay timer, loads another register, and stops at an
unassigned word. -/
def timedRom : List Byte := [0x60, 0x05, 0xF0, 0x15, 0x61, 0x06, 0x00, 0x01]

def timed : Machine := withRom timedRom (.repeating [])

theorem timed_cycles :
    ∃ m₂ left, timed.cycle 2 = .ok m₂ ∧ m₂.cycle 2 = .error ⟨⟨0x0001, 518⟩, left⟩ ∧
      timed.executed 2 = [⟨512, 0x6005⟩, ⟨514, 0xF015⟩] ∧ m₂.executed 2 = [⟨516, 0x6106⟩] := by
  let m₁ := timed.fetched.apply (.put 0 0x05)
  let m₂ := m₁.fetched.apply (.setDelay 0)
  let m₃ := m₂.decay.fetched.apply (.put 1 0x06)
  have hrom : timedRom.length ≤ romCapacity := by decide
  have e₀ : timed.memory = (withRom timedRom (.repeating [])).memory := rfl
  have e₁ : m₁.memory = (withRom timedRom (.repeating [])).memory := rfl
  have e₂ : m₂.decay.memory = (withRom timedRom (.repeating [])).memory := rfl
  have e₃ : m₃.memory = (withRom timedRom (.repeating [])).memory := rfl
  have p₀ : timed.pc = romStart + (0 : Nat) := rfl
  have p₁ : m₁.pc = romStart + (2 : Nat) := rfl
  have p₂ : m₂.decay.pc = romStart + (4 : Nat) := rfl
  have p₃ : m₃.pc = romStart + (6 : Nat) := rfl
  have w₀ : timed.word = 0x6005 := word_withRom e₀ hrom p₀ (by decide) (by decide)
  have w₁ : m₁.word = 0xF015 := word_withRom e₁ hrom p₁ (by decide) (by decide)
  have w₂ : m₂.decay.word = 0x6106 := word_withRom e₂ hrom p₂ (by decide) (by decide)
  have w₃ : m₃.word = 0x0001 := word_withRom e₃ hrom p₃ (by decide) (by decide)
  have h₀ : timed.step = .ok m₁ := step_of_decode w₀ rfl
  have h₁ : m₁.step = .ok m₂ := step_of_decode w₁ rfl
  have h₂ : m₂.decay.step = .ok m₃ := step_of_decode w₂ rfl
  have h₃ : m₃.step = .error ⟨⟨0x0001, 518⟩, m₃.fetched⟩ := step_of_unassigned w₃ rfl
  refine ⟨m₂.decay, m₃.fetched, ?_, ?_, ?_, ?_⟩
  · exact cycle_of_steps ((steps_succ_of_ok h₀ 1).trans (steps_succ_of_ok h₁ 0))
  · exact cycle_of_halted ((steps_succ_of_ok h₂ 1).trans (steps_succ_of_error h₃ 0))
  · rw [executed_succ_of_ok h₀, executed_succ_of_ok h₁, w₀, w₁, p₀, p₁]
    rfl
  · rw [executed_succ_of_ok h₂, executed_succ_of_error h₃, w₂, p₂]
    rfl

/-- The same four instructions in two cycles and in three, one of which is empty; the last of them
faults. -/
theorem callCycles_of_same_total_up_to_fault :
    timed.WellFormed ∧ asked [2, 2] = asked [1, 0, 3] ∧
      (∀ e ∈ timed.executedIn [2, 2], ¬ e.word.Reads .delay) ∧
      timed.executedIn [1, 0, 3] = [⟨512, 0x6005⟩, ⟨514, 0xF015⟩, ⟨516, 0x6106⟩] ∧
      (timed.callCycles [1, 0, 3]).fault = some ⟨0x0001, 518⟩ ∧
      (timed.callCycles [1, 0, 3]).machine =
        { (timed.callCycles [2, 2]).machine with
          delay := (timed.callCycles [1, 0, 3]).machine.delay
          sound := (timed.callCycles [1, 0, 3]).machine.sound } := by
  obtain ⟨m₂, left, hfirst, hsecond, hentries, hmore⟩ := timed_cycles
  have hwf : timed.WellFormed := wellFormed_withRom _ _
  have htotal : asked [2, 2] = asked [1, 0, 3] := rfl
  have hexecuted : timed.executedIn [2, 2] = [⟨512, 0x6005⟩, ⟨514, 0xF015⟩, ⟨516, 0x6106⟩] := by
    rw [executedIn_cons_of_ok hfirst, executedIn_cons_of_error hsecond,
      show (2 : Int).toNat = 2 from rfl, hentries, hmore]
    rfl
  have hunread : ∀ e ∈ timed.executedIn [2, 2], ¬ e.word.Reads .delay := by
    rw [hexecuted]
    simp [Word.Reads, Word.group, Word.kk]
  obtain ⟨hsame, hfault, -, hequal⟩ := callCycles_of_same_total hwf htotal hunread
  refine ⟨hwf, htotal, hunread, hsame.trans hexecuted, ?_, hequal.symm⟩
  rw [hfault, callCycles_cons_ok hfirst, callCycles_cons_error hsecond]

end ChipEight.Machine
