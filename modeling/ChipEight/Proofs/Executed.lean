/-
# `ChipEight.Proofs.Executed` — the instructions that a run executes

A step that completes has executed the word at its program counter.  Listed in order,
with their addresses, these words are what a run has executed.  A fault ends the list,
and the word that it is about is not in it.

**Proved here**, of steps and of cycles:

    a run without a fault has executed as many words as it has steps     (`length_executed`,
                                                                          `length_executedIn`)
    a run with one has executed fewer, and the step after them faults    (`step_of_halted`,
                                                                          `callCycles_replicate_fault`)
    every executed word has an instruction                               (`decode_of_mem_executed`,
                                                                          `decode_of_mem_executedIn`)
-/
import ChipEight.Proofs.RunCycles

namespace ChipEight.Machine

/-! ## Steps -/

/-- The instructions that complete in a number of steps. -/
def executed : Nat → Machine → List Entry
  | 0, _ => []
  | n + 1, m =>
      match m.step with
      | .ok next => ⟨m.pc, m.word⟩ :: executed n next
      | .error _ => []

theorem executed_succ_of_ok {m next : Machine} (h : m.step = .ok next) (n : Nat) :
    m.executed (n + 1) = ⟨m.pc, m.word⟩ :: next.executed n := by
  rw [executed, h]

theorem executed_succ_of_error {m : Machine} {halt : Halt} (h : m.step = .error halt) (n : Nat) :
    m.executed (n + 1) = [] := by
  rw [executed, h]

theorem executed_add (a b : Nat) : ∀ m : Machine,
    m.executed (a + b) = m.executed a ++
      match m.steps a with
      | .ok mid => mid.executed b
      | .error _ => [] := by
  induction a with
  | zero =>
      intro m
      rw [Nat.zero_add]
      rfl
  | succ a ih =>
      intro m
      rw [Nat.succ_add]
      cases hstep : m.step with
      | ok next =>
          rw [executed_succ_of_ok hstep, executed_succ_of_ok hstep, steps_succ_of_ok hstep, ih]
          rfl
      | error halt =>
          rw [executed_succ_of_error hstep, executed_succ_of_error hstep,
            steps_succ_of_error hstep]
          rfl

theorem length_executed (n : Nat) : ∀ {m last : Machine}, m.steps n = .ok last →
    (m.executed n).length = n := by
  induction n with
  | zero => exact fun _ => rfl
  | succ n ih =>
      intro m last h
      cases hstep : m.step with
      | ok next =>
          rw [steps_succ_of_ok hstep] at h
          rw [executed_succ_of_ok hstep, List.length_cons, ih h]
      | error halt =>
          rw [steps_succ_of_error hstep] at h
          cases h

theorem step_of_halted (n : Nat) : ∀ {m : Machine} {halt : Halt}, m.steps n = .error halt →
    (m.executed n).length < n ∧
      ∃ last, m.steps (m.executed n).length = .ok last ∧ last.step = .error halt := by
  induction n with
  | zero => exact nofun
  | succ n ih =>
      intro m halt h
      cases hstep : m.step with
      | ok next =>
          rw [steps_succ_of_ok hstep] at h
          obtain ⟨hlt, last, hsteps, hlast⟩ := ih h
          rw [executed_succ_of_ok hstep, List.length_cons]
          exact ⟨Nat.succ_lt_succ hlt, last, (steps_succ_of_ok hstep _).trans hsteps, hlast⟩
      | error halt' =>
          rw [steps_succ_of_error hstep] at h
          rw [executed_succ_of_error hstep]
          exact ⟨Nat.succ_pos n, m, rfl, hstep.trans h⟩

theorem decode_of_mem_executed (n : Nat) : ∀ {m : Machine} {e : Entry}, e ∈ m.executed n →
    e.word.decode ≠ none := by
  induction n with
  | zero => exact fun h => absurd h List.not_mem_nil
  | succ n ih =>
      intro m e h
      cases hstep : m.step with
      | ok next =>
          rw [executed_succ_of_ok hstep, List.mem_cons] at h
          rcases h with rfl | h
          · obtain ⟨i, hi, -⟩ := step_eq_ok_iff.1 hstep
            rw [hi]
            exact nofun
          · exact ih h
      | error halt =>
          rw [executed_succ_of_error hstep] at h
          cases h

/-! ## Cycles -/

/-- The instructions that complete in a series of cycles. -/
def executedIn : List Int → Machine → List Entry
  | [], _ => []
  | batch :: batches, m =>
      m.executed batch.toNat ++
        match m.cycle batch with
        | .ok next => executedIn batches next
        | .error _ => []

theorem executedIn_cons_of_ok {m next : Machine} {batch : Int} (h : m.cycle batch = .ok next)
    (batches : List Int) :
    m.executedIn (batch :: batches) = m.executed batch.toNat ++ next.executedIn batches := by
  rw [executedIn, h]

theorem executedIn_cons_of_error {m : Machine} {halt : Halt} {batch : Int}
    (h : m.cycle batch = .error halt) (batches : List Int) :
    m.executedIn (batch :: batches) = m.executed batch.toNat := by
  rw [executedIn, h, List.append_nil]

theorem steps_of_cycle {m next : Machine} {batch : Int} (h : m.cycle batch = .ok next) :
    ∃ last, m.steps batch.toNat = .ok last ∧ next = last.decay := by
  rw [cycle] at h
  cases hsteps : m.steps batch.toNat with
  | ok last =>
      rw [hsteps] at h
      exact ⟨last, rfl, (Except.ok.inj h).symm⟩
  | error halt =>
      rw [hsteps] at h
      cases h

theorem cycle_eq_error_iff {m : Machine} {halt : Halt} {batch : Int} :
    m.cycle batch = .error halt ↔ m.steps batch.toNat = .error halt := by
  refine ⟨?_, cycle_of_halted⟩
  intro h
  rw [cycle] at h
  cases hsteps : m.steps batch.toNat with
  | ok last =>
      rw [hsteps] at h
      cases h
  | error halt' =>
      rw [hsteps] at h
      exact h

theorem decode_of_mem_executedIn (batches : List Int) : ∀ {m : Machine} {e : Entry},
    e ∈ m.executedIn batches → e.word.decode ≠ none := by
  induction batches with
  | nil => exact fun h => absurd h List.not_mem_nil
  | cons batch batches ih =>
      intro m e h
      cases hcycle : m.cycle batch with
      | ok next =>
          rw [executedIn_cons_of_ok hcycle, List.mem_append] at h
          exact h.elim (decode_of_mem_executed _) ih
      | error halt =>
          rw [executedIn_cons_of_error hcycle] at h
          exact decode_of_mem_executed _ h

/-- A series with a fault is a series without one, the cycle that faults, and cycles that are never
begun. -/
theorem executedIn_of_fault (batches : List Int) : ∀ {m : Machine} {f : Fault},
    (m.callCycles batches).fault = some f →
    ∃ done batch rest before, batches = done ++ batch :: rest ∧
      m.callCycles done = ⟨before, (m.callCycles batches).completed, none⟩ ∧
      before.cycle batch = .error ⟨f, (m.callCycles batches).machine⟩ ∧
      m.executedIn batches = m.executedIn done ++ before.executed batch.toNat := by
  induction batches with
  | nil => exact nofun
  | cons batch batches ih =>
      intro m f h
      cases hcycle : m.cycle batch with
      | ok next =>
          rw [callCycles_cons_ok hcycle] at h
          obtain ⟨done, faulty, rest, before, rfl, hdone, hfaulty, hentries⟩ := ih h
          refine ⟨batch :: done, faulty, rest, before, rfl, ?_, ?_, ?_⟩
          · rw [callCycles_cons_ok hcycle, callCycles_cons_ok hcycle, hdone]
          · rw [callCycles_cons_ok hcycle]
            exact hfaulty
          · rw [executedIn_cons_of_ok hcycle, executedIn_cons_of_ok hcycle, hentries,
              List.append_assoc]
      | error halt =>
          rw [callCycles_cons_error hcycle] at h
          obtain rfl : halt.fault = f := Option.some.inj h
          refine ⟨[], batch, batches, m, rfl, ?_, ?_, ?_⟩
          · rw [callCycles_cons_error hcycle]
            rfl
          · rw [callCycles_cons_error hcycle]
            exact hcycle
          · rw [executedIn_cons_of_error hcycle]
            rfl

/-! ## Cycles of one size -/

theorem length_executedIn {batch : Int} (n : Nat) : ∀ {m : Machine},
    (m.callCycles (List.replicate n batch)).fault = none →
    (m.executedIn (List.replicate n batch)).length = n * batch.toNat := by
  induction n with
  | zero =>
      intro m _
      rw [List.replicate_zero, executedIn, List.length_nil, Nat.zero_mul]
  | succ n ih =>
      intro m h
      rw [List.replicate_succ] at h ⊢
      cases hcycle : m.cycle batch with
      | ok next =>
          obtain ⟨last, hlast, -⟩ := steps_of_cycle hcycle
          rw [callCycles_cons_ok hcycle] at h
          rw [executedIn_cons_of_ok hcycle, List.length_append, length_executed _ hlast, ih h,
            Nat.succ_mul, Nat.add_comm]
      | error halt =>
          rw [callCycles_cons_error hcycle] at h
          cases h

/-- With a fault, the cycles that were completed come first, and then fewer steps than the next one
was to have; the step after them faults. -/
theorem callCycles_replicate_fault {m : Machine} {n : Nat} {batch : Int} {f : Fault}
    (h : (m.callCycles (List.replicate n batch)).fault = some f) :
    let calls := m.callCycles (List.replicate n batch)
    ∃ before last j,
      m.callCycles (List.replicate calls.completed batch) = ⟨before, calls.completed, none⟩ ∧
      (m.executedIn (List.replicate n batch)).length = calls.completed * batch.toNat + j ∧
      (j : Int) < batch ∧ before.steps j = .ok last ∧ last.step = .error ⟨f, calls.machine⟩ := by
  obtain ⟨done, faulty, rest, before, hsplit, hdone, hfaulty, hentries⟩ :=
    executedIn_of_fault (List.replicate n batch) h
  obtain ⟨-, hreplicate, hrest⟩ := List.append_eq_replicate_iff.1 hsplit.symm
  obtain rfl : faulty = batch := List.eq_of_mem_replicate (hrest ▸ List.mem_cons_self)
  have hcompleted : (m.callCycles (List.replicate n faulty)).completed = done.length := by
    have hall := (callCycles_completed done m).1 (by rw [hdone])
    rwa [hdone] at hall
  rw [← hcompleted] at hreplicate
  rw [hreplicate] at hdone hentries
  obtain ⟨hlt, last, hsteps, hlast⟩ := step_of_halted _ (cycle_eq_error_iff.1 hfaulty)
  refine ⟨before, last, (before.executed faulty.toNat).length, hdone, ?_, by omega, hsteps, hlast⟩
  rw [hentries, List.length_append, length_executedIn _ (by rw [hdone])]

/-- The last word is no instruction, so the fourth one is not executed. -/
theorem executedIn_faultyStartWith {rest : List Byte}
    (hrom : (Run.faultyRom ++ rest).length ≤ romCapacity) (source : RandomSource)
    (keys : List Int) :
    (Run.faultyStartWith rest source keys).executedIn [2, 2, 2] =
      [⟨512, 0x6005⟩, ⟨514, 0x6106⟩, ⟨516, 0x6207⟩] := by
  obtain ⟨m₁, m₂, m₃, left, ⟨h₀, h₁, h₂, h₃⟩, ⟨hfirst, hsecond⟩, e₀, e₁, e₂, -⟩ :=
    Run.faultyStartWith_steps hrom source keys
  rw [executedIn_cons_of_ok hfirst, executedIn_cons_of_error hsecond,
    show (2 : Int).toNat = 2 from rfl, executed_succ_of_ok h₀, executed_succ_of_ok h₁,
    executed_succ_of_ok h₂, executed_succ_of_error h₃, e₀.1, e₀.2, e₁.1, e₁.2, e₂.1, e₂.2]
  rfl

end ChipEight.Machine
