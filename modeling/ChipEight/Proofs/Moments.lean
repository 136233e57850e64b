/-
# `ChipEight.Proofs.Moments` — the machines at which a run executes its instructions

What an instruction does depends on more than its word: on registers, keys, the source of
random bytes.  So besides the words that a run executes (`executed`) there are the
machines that it executes them on, here called its moments.  A step that faults is none.

A property that each step keeps, given what is true of the moment, and that the count-down
of the timers keeps, is one of every moment and of what is left in the end.

**Proved here.**

    the executed words are those of the moments      (`executed_eq_map`, `executedIn_eq_map`)
    what the moments keep, a run keeps               (`invariant_steps`, `invariant_callCycles`)
-/
import ChipEight.Proofs.Executed

namespace ChipEight.Machine

/-! ## Steps -/

/-- The machines before the instructions that complete in a number of steps, in order. -/
def moments : Nat → Machine → List Machine
  | 0, _ => []
  | n + 1, m =>
      match m.step with
      | .ok next => m :: moments n next
      | .error _ => []

/-- What is recorded of a moment. -/
def entry (m : Machine) : Entry := ⟨m.pc, m.word⟩

theorem moments_succ_of_ok {m next : Machine} (h : m.step = .ok next) (n : Nat) :
    m.moments (n + 1) = m :: next.moments n := by
  rw [moments, h]

theorem moments_succ_of_error {m : Machine} {halt : Halt} (h : m.step = .error halt) (n : Nat) :
    m.moments (n + 1) = [] := by
  rw [moments, h]

theorem executed_eq_map (n : Nat) : ∀ m : Machine, m.executed n = (m.moments n).map entry := by
  induction n with
  | zero => exact fun _ => rfl
  | succ n ih =>
      intro m
      cases hstep : m.step with
      | ok next =>
          rw [executed_succ_of_ok hstep, moments_succ_of_ok hstep, List.map_cons, ih next]
          rfl
      | error halt =>
          rw [executed_succ_of_error hstep, moments_succ_of_error hstep, List.map_nil]

/-! ## Cycles -/

/-- The moments of a series of cycles, up to the first fault. -/
def momentsIn : List Int → Machine → List Machine
  | [], _ => []
  | batch :: batches, m =>
      m.moments batch.toNat ++
        match m.cycle batch with
        | .ok next => momentsIn batches next
        | .error _ => []

theorem momentsIn_cons_of_ok {m next : Machine} {batch : Int} (h : m.cycle batch = .ok next)
    (batches : List Int) :
    m.momentsIn (batch :: batches) = m.moments batch.toNat ++ next.momentsIn batches := by
  rw [momentsIn, h]

theorem momentsIn_cons_of_error {m : Machine} {halt : Halt} {batch : Int}
    (h : m.cycle batch = .error halt) (batches : List Int) :
    m.momentsIn (batch :: batches) = m.moments batch.toNat := by
  rw [momentsIn, h, List.append_nil]

theorem executedIn_eq_map (batches : List Int) :
    ∀ m : Machine, m.executedIn batches = (m.momentsIn batches).map entry := by
  induction batches with
  | nil => exact fun _ => rfl
  | cons batch batches ih =>
      intro m
      cases hcycle : m.cycle batch with
      | ok next =>
          rw [executedIn_cons_of_ok hcycle, momentsIn_cons_of_ok hcycle, List.map_append, ih next,
            executed_eq_map]
      | error halt =>
          rw [executedIn_cons_of_error hcycle, momentsIn_cons_of_error hcycle, executed_eq_map]

/-! ## What a run keeps -/

section

variable {P Q : Machine → Prop}
  (hstep : ∀ {m : Machine}, P m → (∀ next, m.step = .ok next → Q m) → P (leftBy m.step))
include hstep

theorem invariant_steps (n : Nat) : ∀ {m : Machine}, P m → (∀ mid ∈ m.moments n, Q mid) →
    P (leftBy (m.steps n)) ∧ ∀ mid ∈ m.moments n, P mid := by
  induction n with
  | zero => exact fun hm _ => ⟨hm, fun _ h => absurd h List.not_mem_nil⟩
  | succ n ih =>
      intro m hm h
      cases hnext : m.step with
      | ok next =>
          rw [moments_succ_of_ok hnext, List.forall_mem_cons] at h
          have hleft := hstep hm fun _ _ => h.1
          rw [hnext] at hleft
          obtain ⟨hlast, hmids⟩ := ih hleft h.2
          rw [steps_succ_of_ok hnext, moments_succ_of_ok hnext, List.forall_mem_cons]
          exact ⟨hlast, hm, hmids⟩
      | error halt =>
          have hleft := hstep hm fun next hok => nomatch hnext.symm.trans hok
          rw [hnext] at hleft
          rw [steps_succ_of_error hnext, moments_succ_of_error hnext]
          exact ⟨hleft, fun _ h => absurd h List.not_mem_nil⟩

theorem invariant_callCycles (hdecay : ∀ {m : Machine}, P m → P m.decay) (batches : List Int) :
    ∀ {m : Machine}, P m → (∀ mid ∈ m.momentsIn batches, Q mid) →
      P (m.callCycles batches).machine ∧ ∀ mid ∈ m.momentsIn batches, P mid := by
  induction batches with
  | nil => exact fun hm _ => ⟨hm, fun _ h => absurd h List.not_mem_nil⟩
  | cons batch batches ih =>
      intro m hm h
      cases hcycle : m.cycle batch with
      | ok next =>
          obtain ⟨last, hlast, rfl⟩ := steps_of_cycle hcycle
          rw [momentsIn_cons_of_ok hcycle, List.forall_mem_append] at h
          obtain ⟨hleft, hfirst⟩ := invariant_steps hstep batch.toNat hm h.1
          rw [hlast] at hleft
          obtain ⟨hend, hrest⟩ := ih (hdecay hleft) h.2
          rw [callCycles_cons_ok hcycle, momentsIn_cons_of_ok hcycle, List.forall_mem_append]
          exact ⟨hend, hfirst, hrest⟩
      | error halt =>
          rw [momentsIn_cons_of_error hcycle] at h
          obtain ⟨hleft, hfirst⟩ := invariant_steps hstep batch.toNat hm h
          rw [cycle_eq_error_iff.1 hcycle] at hleft
          rw [callCycles_cons_error hcycle, momentsIn_cons_of_error hcycle]
          exact ⟨hleft, hfirst⟩

end

end ChipEight.Machine
