/-
# `ChipEight.Proofs.History` — the states along a run of steps

A run of `n` steps that does not fault goes through the states `m.after 0`, ...,
`m.after n`.  What is proved about runs is proved about these: by what one step does,
and by induction on their number.

**Proved here.**

    a step succeeds exactly where the word has an instruction    (`step_eq_ok_iff`, `step_eq_error_iff`)
    along a run every step leads to the next state               (`step_after`)
-/
import ChipEight.Proofs.WellFormed

namespace ChipEight.Machine

/-! ## One step -/

theorem step_eq_ok_iff {m next : Machine} :
    m.step = .ok next ↔ ∃ i, m.word.decode = some i ∧ next = m.fetched.apply i := by
  rw [step, execute]
  cases m.word.decode with
  | none =>
      constructor
      · intro h
        cases h
      · rintro ⟨i, hi, -⟩
        cases hi
  | some i =>
      constructor
      · intro h
        cases h
        exact ⟨i, rfl, rfl⟩
      · rintro ⟨i, hi, rfl⟩
        cases hi
        rfl

theorem step_eq_error_iff {m : Machine} {halt : Halt} :
    m.step = .error halt ↔ m.word.decode = none ∧ halt = ⟨m.fetched.faultAt m.word, m.fetched⟩ :=
  m.fetched.execute_eq_error_iff m.word halt

theorem step_of_decode {m : Machine} {w : Word} {i : Instruction} (hw : m.word = w)
    (hi : w.decode = some i) : m.step = .ok (m.fetched.apply i) :=
  step_eq_ok_iff.2 ⟨i, hw ▸ hi, rfl⟩

theorem step_of_unassigned {m : Machine} {w : Word} (hw : m.word = w) (hi : w.decode = none) :
    m.step = .error ⟨m.fetched.faultAt w, m.fetched⟩ :=
  step_eq_error_iff.2 ⟨hw ▸ hi, hw ▸ rfl⟩

theorem steps_succ_of_ok {m next : Machine} (h : m.step = .ok next) (n : Nat) :
    m.steps (n + 1) = next.steps n := by
  rw [steps, h]

theorem steps_succ_of_error {m : Machine} {halt : Halt} (h : m.step = .error halt) (n : Nat) :
    m.steps (n + 1) = .error halt := by
  rw [steps, h]

theorem cycle_of_steps {m last : Machine} {n : Int} (h : m.steps n.toNat = .ok last) :
    m.cycle n = .ok last.decay := by
  rw [cycle, h]

theorem cycle_of_halted {m : Machine} {halt : Halt} {n : Int} (h : m.steps n.toNat = .error halt) :
    m.cycle n = .error halt := by
  rw [cycle, h]

/-! ## The states of a run -/

/-- The machine after `i` steps, or where it stopped if it faulted before. -/
def after (m : Machine) (i : Nat) : Machine := leftBy (m.steps i)

theorem after_zero (m : Machine) : m.after 0 = m := rfl

section

variable {m last : Machine} {n : Nat} (hrun : m.steps n = .ok last)
include hrun

theorem after_eq_last : m.after n = last := by
  rw [after, hrun]
  rfl

theorem steps_prefix {i : Nat} (hi : i ≤ n) : m.steps i = .ok (m.after i) := by
  obtain ⟨k, rfl⟩ := Nat.exists_eq_add_of_le hi
  rw [steps_add] at hrun
  rw [after]
  cases hsteps : m.steps i with
  | ok mid => rfl
  | error halt =>
      rw [hsteps] at hrun
      cases hrun

theorem step_after {i : Nat} (hi : i < n) : (m.after i).step = .ok (m.after (i + 1)) := by
  have hnext : m.steps (i + 1) = .ok (m.after (i + 1)) := steps_prefix hrun hi
  rw [steps_add, steps_prefix hrun (Nat.le_of_lt hi)] at hnext
  have hone : (m.after i).steps 1 = .ok (m.after (i + 1)) := hnext
  rw [steps] at hone
  cases hstep : (m.after i).step with
  | ok next =>
      rw [hstep] at hone
      exact hone
  | error halt =>
      rw [hstep] at hone
      cases hone

omit hrun in
theorem WellFormed.after (h : m.WellFormed) (i : Nat) : (m.after i).WellFormed := h.steps i

end

end ChipEight.Machine
