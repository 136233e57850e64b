/-
# `ChipEight.Proofs.TimerHistory` — what a timer holds after any series of cycles

Each timer is set by one instruction and counted down by cycles.  A cycle counts it down
once, at its end, and a cycle that faults not at all; the timer does not go below zero.
So all that matters is the last instruction that set it, and how many cycles have been
completed since, the one in which it was set among them.

The host goes on after a fault: the cycles are run one after the other, each from the
machine that the one before it left.

**Proved here.**

    one step sets a timer or leaves it alone              (`timer_step_of_sets`, `timer_step_of_not_sets`)
    after several it holds what was last stored           (`timer_steps`)
    then it goes down with the completed cycles           (`timer_runCycles_of_unset`)
    which settles every timer after every series          (`timer_runCycles`)
-/
import ChipEight.Proofs.Moments
import ChipEight.Proofs.WriteSets

namespace ChipEight

/-- The two timers. -/
inductive Timer where
  | delay
  | sound
  deriving DecidableEq, Repr

/-- What a timer holds. -/
def Machine.timer (m : Machine) : Timer → Int
  | .delay => m.delay
  | .sound => m.sound

/-- The instruction that sets a timer. -/
def Timer.setter : Timer → Register → Instruction
  | .delay => .setDelay
  | .sound => .setSound

/-- Whether the instruction of a word sets a timer. -/
def Word.Sets (w : Word) : Timer → Prop
  | .delay => w.group = 0xF ∧ w.kk.toNat = 0x15
  | .sound => w.group = 0xF ∧ w.kk.toNat = 0x18

instance (w : Word) : DecidablePred w.Sets
  | .delay => instDecidableAnd
  | .sound => instDecidableAnd

theorem Word.decode_of_sets {w : Word} {t : Timer} (h : w.Sets t) :
    w.decode = some (t.setter w.x) := by
  cases t with
  | delay => exact decode_eq_some_iff.2 ⟨h.1, h.2, rfl⟩
  | sound => exact decode_eq_some_iff.2 ⟨h.1, h.2, rfl⟩

namespace Machine

variable {t : Timer}

/-! ## Steps -/

/-- What the word at the program counter stores if it sets a timer. -/
def stored (m : Machine) : Int := (m.reg m.word.x).toNat

theorem timer_step_of_sets {m next : Machine} (h : m.word.Sets t) (hstep : m.step = .ok next) :
    next.timer t = m.stored := by
  have hset := step_of_decode rfl (Word.decode_of_sets h)
  obtain rfl : m.fetched.apply (t.setter m.word.x) = next := Except.ok.inj (hset.symm.trans hstep)
  cases t <;> rfl

theorem timer_step_of_not_sets {m : Machine} (hm : m.WellFormed) (h : ¬ m.word.Sets t) :
    (leftBy m.step).timer t = m.timer t := by
  cases t with
  | delay =>
      have hsame : m.SameIn (leftBy m.step) .delay := sameIn_step hm h
      exact hsame.symm
  | sound =>
      have hsame : m.SameIn (leftBy m.step) .sound := sameIn_step hm h
      exact hsame.symm

/-- The last of some moments at which a timer is set. -/
def lastSetting (t : Timer) (mids : List Machine) : Option Machine :=
  (mids.filter fun mid => mid.word.Sets t).getLast?

theorem lastSetting_eq_none_iff {mids : List Machine} :
    lastSetting t mids = none ↔ ∀ mid ∈ mids, ¬ mid.word.Sets t := by
  simp [lastSetting]

theorem lastSetting_cons_of_not_sets {m : Machine} (h : ¬ m.word.Sets t) (mids : List Machine) :
    lastSetting t (m :: mids) = lastSetting t mids := by
  rw [lastSetting, List.filter_cons_of_neg (by simpa using h)]
  rfl

theorem lastSetting_cons_of_sets {m : Machine} (h : m.word.Sets t) (mids : List Machine) :
    lastSetting t (m :: mids) = some ((lastSetting t mids).getD m) := by
  rw [lastSetting, List.filter_cons_of_pos (by simpa using h), List.getLast?_cons]
  rfl

/-- By induction on the number of steps, also if the last of them faults. -/
theorem timer_steps (n : Nat) : ∀ {m : Machine}, m.WellFormed →
    (leftBy (m.steps n)).timer t =
      ((lastSetting t (m.moments n)).map stored).getD (m.timer t) := by
  induction n with
  | zero => exact fun _ => rfl
  | succ n ih =>
      intro m hm
      cases hstep : m.step with
      | ok next =>
          rw [steps_succ_of_ok hstep, moments_succ_of_ok hstep, ih (hm.step_ok hstep)]
          by_cases hsets : m.word.Sets t
          · rw [lastSetting_cons_of_sets hsets, timer_step_of_sets hsets hstep]
            cases lastSetting t (next.moments n) <;> rfl
          · have hkept := timer_step_of_not_sets hm hsets
            rw [hstep] at hkept
            rw [lastSetting_cons_of_not_sets hsets]
            exact congrArg _ hkept
      | error halt =>
          have hsets : ¬ m.word.Sets t := by
            intro hsets
            have hset := step_of_decode rfl (Word.decode_of_sets hsets)
            cases hset.symm.trans hstep
          have hkept := timer_step_of_not_sets hm hsets
          rw [hstep] at hkept
          rw [steps_succ_of_error hstep, moments_succ_of_error hstep]
          exact hkept

/-! ## Cycles -/

/-- The machine after a series of cycles of which each is run, whether or not those before it have
faulted. -/
def runCycles (m : Machine) (batches : List Int) : Machine := m.performAll (batches.map .cycle)

theorem runCycles_singleton (m : Machine) (batch : Int) :
    m.runCycles [batch] = leftBy (m.cycle batch) := rfl

theorem runCycles_append (m : Machine) (before after : List Int) :
    m.runCycles (before ++ after) = (m.runCycles before).runCycles after := by
  rw [runCycles, List.map_append, performAll, List.foldl_append]
  rfl

/-- The moments of a series of cycles of which each is run. -/
def momentsThrough : List Int → Machine → List Machine
  | [], _ => []
  | batch :: batches, m =>
      m.moments batch.toNat ++ momentsThrough batches (m.runCycles [batch])

/-- How many of them complete. -/
def completions : List Int → Machine → Nat
  | [], _ => 0
  | batch :: batches, m =>
      (match m.cycle batch with
        | .ok _ => 1
        | .error _ => 0) + completions batches (m.runCycles [batch])

theorem WellFormed.runCycles {m : Machine} (hm : m.WellFormed) (batches : List Int) :
    (m.runCycles batches).WellFormed := hm.performAll _

theorem WellFormed.timer {m : Machine} (hm : m.WellFormed) (t : Timer) : 0 ≤ m.timer t := by
  cases t with
  | delay => exact hm.delay.1
  | sound => exact hm.sound.1

theorem timer_decay (m : Machine) : m.decay.timer t = countDown (m.timer t) := by
  cases t <;> rfl

/-- One cycle: what the timer holds after the instructions goes down by one if the cycle
completes. -/
theorem timer_cycle {m : Machine} (hm : m.WellFormed) (batch : Int) :
    (m.runCycles [batch]).timer t =
      max 0 (((lastSetting t (m.moments batch.toNat)).map stored).getD (m.timer t) -
        m.completions [batch]) := by
  have hsteps := timer_steps (t := t) batch.toNat hm
  have hbefore := (hm.steps batch.toNat).timer t
  rw [← hsteps, runCycles_singleton]
  cases hcycle : m.cycle batch with
  | ok next =>
      obtain ⟨last, hlast, rfl⟩ := steps_of_cycle hcycle
      rw [hlast] at hbefore ⊢
      have hcount : m.completions [batch] = 1 := by rw [completions, hcycle]; rfl
      rw [hcount]
      show last.decay.timer t = max 0 (last.timer t - 1)
      rw [timer_decay, countDown]
      have hlow : 0 ≤ last.timer t := hbefore
      split <;> omega
  | error halt =>
      rw [cycle_eq_error_iff.1 hcycle] at hbefore ⊢
      have hcount : m.completions [batch] = 0 := by rw [completions, hcycle]; rfl
      rw [hcount]
      have hlow : 0 ≤ halt.machine.timer t := hbefore
      show halt.machine.timer t = max 0 (halt.machine.timer t - 0)
      omega

theorem completions_cons (m : Machine) (batch : Int) (batches : List Int) :
    m.completions (batch :: batches) =
      m.completions [batch] + (m.runCycles [batch]).completions batches := by
  simp only [completions, Nat.add_zero]

/-- By induction on the cycles; a timer that has reached zero stays there. -/
theorem timer_runCycles_of_unset (batches : List Int) : ∀ {m : Machine}, m.WellFormed →
    (∀ mid ∈ m.momentsThrough batches, ¬ mid.word.Sets t) →
    (m.runCycles batches).timer t = max 0 (m.timer t - m.completions batches) := by
  induction batches with
  | nil =>
      intro m hm _
      have hlow := hm.timer t
      show m.timer t = max 0 (m.timer t - 0)
      omega
  | cons batch batches ih =>
      intro m hm h
      rw [momentsThrough, List.forall_mem_append] at h
      have hfirst := timer_cycle (t := t) hm batch
      rw [lastSetting_eq_none_iff.2 h.1] at hfirst
      have hrest := ih (hm.runCycles [batch]) h.2
      rw [hfirst] at hrest
      have hsplit : m.runCycles (batch :: batches) = (m.runCycles [batch]).runCycles batches := rfl
      rw [hsplit, hrest, completions_cons m batch batches]
      simp only [Option.map_none, Option.getD_none]
      omega

theorem timer_runCycles_of_last {m mid : Machine} (hm : m.WellFormed) {batch : Int}
    (hlast : lastSetting t (m.moments batch.toNat) = some mid) {batches : List Int}
    (hrest : ∀ later ∈ (m.runCycles [batch]).momentsThrough batches, ¬ later.word.Sets t) :
    (m.runCycles (batch :: batches)).timer t =
      max 0 (mid.stored - m.completions (batch :: batches)) := by
  have hfirst := timer_cycle (t := t) hm batch
  have hend := timer_runCycles_of_unset batches (hm.runCycles [batch]) hrest
  rw [hlast] at hfirst
  rw [hfirst] at hend
  have hsplit : m.runCycles (batch :: batches) = (m.runCycles [batch]).runCycles batches := rfl
  rw [hsplit, hend, completions_cons m batch batches]
  simp only [Option.map_some, Option.getD_some]
  omega

/-- Either a timer is not set, or there is a last cycle that sets it. -/
theorem exists_lastSetting (t : Timer) (batches : List Int) : ∀ m : Machine,
    (∀ mid ∈ m.momentsThrough batches, ¬ mid.word.Sets t) ∨
      ∃ before batch after mid, batches = before ++ batch :: after ∧
        lastSetting t ((m.runCycles before).moments batch.toNat) = some mid ∧
        ∀ later ∈ (m.runCycles (before ++ [batch])).momentsThrough after,
          ¬ later.word.Sets t := by
  induction batches with
  | nil => exact fun m => .inl fun _ h => absurd h List.not_mem_nil
  | cons batch batches ih =>
      intro m
      rcases ih (m.runCycles [batch]) with hnone | ⟨before, size, after, mid, rfl, hlast, hafter⟩
      · cases hfirst : lastSetting t (m.moments batch.toNat) with
        | none =>
            refine .inl ?_
            rw [momentsThrough, List.forall_mem_append]
            exact ⟨lastSetting_eq_none_iff.1 hfirst, hnone⟩
        | some mid => exact .inr ⟨[], batch, batches, mid, rfl, hfirst, hnone⟩
      · exact .inr ⟨batch :: before, size, after, mid, rfl, hlast, hafter⟩

/-- A series of cycles of any sizes is run on a machine in range; the cycles that fault end there,
and the next ones go on.  A timer that no instruction sets has gone down by one for each cycle that
completed, but not below zero.  Otherwise some instruction was the last to set it, at a moment of
some cycle; then it has gone down from what that instruction stored, by one for each completed cycle
from that cycle on.  One of these is the case, for either timer, whatever the other one does. -/
theorem timer_runCycles {m : Machine} (hm : m.WellFormed) (t : Timer) (batches : List Int) :
    ((∀ mid ∈ m.momentsThrough batches, ¬ mid.word.Sets t) →
      (m.runCycles batches).timer t = max 0 (m.timer t - m.completions batches)) ∧
    (∀ before batch after mid, batches = before ++ batch :: after →
      lastSetting t ((m.runCycles before).moments batch.toNat) = some mid →
      (∀ later ∈ (m.runCycles (before ++ [batch])).momentsThrough after, ¬ later.word.Sets t) →
      (m.runCycles batches).timer t =
        max 0 (((mid.reg mid.word.x).toNat : Int) -
          (m.runCycles before).completions (batch :: after))) ∧
    ((∀ mid ∈ m.momentsThrough batches, ¬ mid.word.Sets t) ∨
      ∃ before batch after mid, batches = before ++ batch :: after ∧
        lastSetting t ((m.runCycles before).moments batch.toNat) = some mid ∧
        ∀ later ∈ (m.runCycles (before ++ [batch])).momentsThrough after,
          ¬ later.word.Sets t) := by
  refine ⟨timer_runCycles_of_unset batches hm, ?_, exists_lastSetting t batches m⟩
  rintro before batch after mid rfl hlast hafter
  rw [runCycles_append] at hafter ⊢
  exact timer_runCycles_of_last (hm.runCycles before) hlast hafter

/-- Sets the delay timer, and stops at an unassigned word. -/
def settingRom : List Byte := [0xF0, 0x15, 0x00, 0x01]

/-- Five is to be stored; the sound timer is running. -/
def setting : Machine := { (withRom settingRom (.repeating [])).setReg 0 5 with sound := 9 }

theorem setting_cycles :
    ∃ m₁ left, setting.step = .ok m₁ ∧ setting.word = 0xF015 ∧ setting.cycle 1 = .ok m₁.decay ∧
      m₁.decay.step = .error ⟨⟨0x0001, 514⟩, left⟩ ∧
      m₁.decay.cycle 1 = .error ⟨⟨0x0001, 514⟩, left⟩ := by
  let m₁ := setting.fetched.apply (.setDelay 0)
  have hrom : settingRom.length ≤ romCapacity := by decide
  have e₀ : setting.memory = (withRom settingRom (.repeating [])).memory := rfl
  have e₁ : m₁.decay.memory = (withRom settingRom (.repeating [])).memory := rfl
  have p₀ : setting.pc = romStart + (0 : Nat) := rfl
  have p₁ : m₁.decay.pc = romStart + (2 : Nat) := rfl
  have w₀ : setting.word = 0xF015 := word_withRom e₀ hrom p₀ (by decide) (by decide)
  have w₁ : m₁.decay.word = 0x0001 := word_withRom e₁ hrom p₁ (by decide) (by decide)
  have h₀ : setting.step = .ok m₁ := step_of_decode w₀ rfl
  have h₁ : m₁.decay.step = .error ⟨⟨0x0001, 514⟩, m₁.decay.fetched⟩ := step_of_unassigned w₁ rfl
  exact ⟨m₁, m₁.decay.fetched, h₀, w₀, cycle_of_steps (steps_succ_of_ok h₀ 0), h₁,
    cycle_of_halted (steps_succ_of_error h₁ 0)⟩

/-- The first of three cycles sets the delay timer, the second faults and counts nothing down, the
third executes nothing. -/
theorem timer_runCycles_past_fault :
    setting.WellFormed ∧ lastSetting .delay (setting.moments 1) = some setting ∧
      (∀ later ∈ (setting.runCycles [1]).momentsThrough [1, 0], ¬ later.word.Sets .delay) ∧
      (∀ mid ∈ setting.momentsThrough [1, 1, 0], ¬ mid.word.Sets .sound) ∧
      setting.completions [1, 1, 0] = 2 ∧
      (setting.runCycles [1, 1, 0]).timer .delay = 3 ∧
      (setting.runCycles [1, 1, 0]).timer .sound = 7 := by
  obtain ⟨m₁, left, h₀, w₀, c₀, h₁, c₁⟩ := setting_cycles
  have hrom := wellFormed_withRom settingRom (.repeating [])
  have hbefore : setting.timer .sound = 9 := rfl
  have hrange : 0 ≤ setting.timer .sound ∧ setting.timer .sound < 256 := by
    rw [hbefore]
    decide
  have hwf : setting.WellFormed :=
    ⟨hrom.stack, hrom.index, hrom.pc, hrom.sp, hrom.delay, hrange⟩
  have r₀ : setting.runCycles [1] = m₁.decay := by rw [runCycles_singleton, c₀]; rfl
  have r₁ : m₁.decay.runCycles [1] = left := by rw [runCycles_singleton, c₁]; rfl
  have hmoments : setting.moments 1 = [setting] := moments_succ_of_ok h₀ 0
  have hnone : m₁.decay.momentsThrough [1, 0] = [] := by
    rw [momentsThrough, r₁, show (1 : Int).toNat = 1 from rfl, moments_succ_of_error h₁]
    rfl
  have hthrough : setting.momentsThrough [1, 1, 0] = [setting] := by
    rw [momentsThrough, r₀, hnone, show (1 : Int).toNat = 1 from rfl, hmoments]
    rfl
  have hlast : lastSetting .delay (setting.moments 1) = some setting := by
    rw [hmoments, lastSetting_cons_of_sets (by rw [w₀]; decide)]
    rfl
  have hafter : ∀ later ∈ (setting.runCycles [1]).momentsThrough [1, 0],
      ¬ later.word.Sets .delay := by
    rw [r₀, hnone]
    exact fun _ h => absurd h List.not_mem_nil
  have hsound : ∀ mid ∈ setting.momentsThrough [1, 1, 0], ¬ mid.word.Sets .sound := by
    rw [hthrough, List.forall_mem_singleton, w₀]
    decide
  have hcount : setting.completions [1, 1, 0] = 2 := by
    rw [completions, c₀, r₀, completions, c₁, r₁, completions, cycle_of_nonpos left (by decide)]
    rfl
  have hdelayed := (timer_runCycles hwf .delay [1, 1, 0]).2.1 [] 1 [1, 0] setting rfl hlast hafter
  have hsounded := (timer_runCycles hwf .sound [1, 1, 0]).1 hsound
  have hstart : setting.runCycles [] = setting := rfl
  have hstored : ((setting.reg setting.word.x).toNat : Int) = 5 := by
    rw [w₀]
    rfl
  rw [hstart, hcount, hstored] at hdelayed
  rw [hcount, hbefore] at hsounded
  exact ⟨hwf, hlast, hafter, hsound, hcount, hdelayed, hsounded⟩

end Machine

end ChipEight
