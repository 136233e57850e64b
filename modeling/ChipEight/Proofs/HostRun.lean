/-
# `ChipEight.Proofs.HostRun` — a host that lets a machine run

A host that only lets time pass steps the machine and counts its timers down, in any
order, and may press and release keys in between.  A step that faults does not keep it
from going on in the machine that the fault leaves, so all that a run comes to is
`performAll`; a run that ends with its first fault is one of those.

**Proved here.**

    what is always true is true before each step           (`beforeSteps_of_forall`)
    what is true before each step of a sequence is true
    before each step of its parts                          (`beforeSteps_append`)
-/
import ChipEight.Proofs.Plain.Host

namespace ChipEight

/-- The actions of a host that lets the machine run. -/
inductive Action.Runs : Action → Prop
  | step : Runs .step
  | decay : Runs .decay
  | press (key : Int) : Runs (.press key)
  | release (key : Int) : Runs (.release key)
  | setKeys (keys : List Int) : Runs (.setKeys keys)

namespace Machine

/-- The fault that a computation ended with. -/
def faultOf : Except Halt Machine → Option Fault
  | .ok _ => none
  | .error halt => some halt.fault

/-- Something is true of the machine before each of the steps. -/
def BeforeSteps (p : Machine → Prop) (m : Machine) : List Action → Prop
  | [] => True
  | a :: actions => (a = .step → p m) ∧ (m.perform a).BeforeSteps p actions

theorem beforeSteps_of_forall {p : Machine → Prop} (hp : ∀ m, p m) (actions : List Action) :
    ∀ m : Machine, m.BeforeSteps p actions := by
  induction actions with
  | nil => exact fun _ => trivial
  | cons a actions ih => exact fun m => ⟨fun _ => hp m, ih _⟩

theorem beforeSteps_append {p : Machine → Prop} (before after : List Action) : ∀ {m : Machine},
    m.BeforeSteps p (before ++ after) →
      m.BeforeSteps p before ∧ (m.performAll before).BeforeSteps p after := by
  induction before with
  | nil => exact fun h => ⟨trivial, h⟩
  | cons a before ih =>
      intro m h
      obtain ⟨hbefore, hafter⟩ := ih h.2
      exact ⟨⟨h.1, hbefore⟩, hafter⟩

section

variable {m next : Machine} {a : Action} (h : m.attempt a = .ok next) {actions : List Action}
include h

theorem performAll_cons_of_ok : m.performAll (a :: actions) = next.performAll actions :=
  congrArg (fun r => (leftBy r).performAll actions) h

theorem beforeSteps_cons_of_ok {p : Machine → Prop} (hp : a = .step → p m)
    (hrest : next.BeforeSteps p actions) : m.BeforeSteps p (a :: actions) := by
  have hnext : m.perform a = next := congrArg leftBy h
  exact ⟨hp, hnext ▸ hrest⟩

end

end Machine

end ChipEight
