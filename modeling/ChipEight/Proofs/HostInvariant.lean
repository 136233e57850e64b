/-
# `ChipEight.Proofs.HostInvariant` — every state that a host reaches is in range

A host starts from a loaded ROM or from a blank machine and then does whatever it
likes, in any order: it executes words and steps and cycles, also after one of them
has faulted, and it writes registers, keys and memory with any integers.  The states
are plain ones, so that sizes and ranges are facts about them and not about types.

The argument runs through the machine: a state in range is the plain state of a
well-formed machine, an action does to it what it does to the machine, and no action
takes the machine out of its ranges.

**Proved here.**

    one action keeps a plain state in range          (`WellFormed.perform`)
    so does any sequence of them                     (`WellFormed.performAll`)
    every state that a host reaches is in range      (`wellFormed_of_host`)
-/
import ChipEight.Proofs.Plain.Host

namespace ChipEight.Plain

namespace WellFormed

variable {s : Plain}

theorem perform (h : s.WellFormed) {a : Action} (ha : a.Admissible) : (s.perform a).WellFormed := by
  obtain ⟨m, hm, rfl⟩ := wellFormed_iff.1 h
  rw [perform_plain hm ha]
  exact wellFormed_plain (hm.perform a)

theorem performAll (h : s.WellFormed) {actions : List Action} (ha : ∀ a ∈ actions, a.Admissible) :
    (s.performAll actions).WellFormed := by
  induction actions generalizing s with
  | nil => exact h
  | cons a actions ih =>
      obtain ⟨hfirst, hrest⟩ := List.forall_mem_cons.1 ha
      exact ih (h.perform hfirst) hrest

end WellFormed

/-- A ROM that fits and a blank machine start in range; every sequence of actions keeps the ranges,
of the plain state and of the machine alike, and none of them fails otherwise than on a word
without an instruction. -/
theorem wellFormed_of_host :
    (∀ (rom : List Byte) (source : RandomSource), rom.length ≤ romCapacity →
      ∃ m, Machine.load rom source = .ok m ∧ (loadRom rom).run (blank source) = .ok () m.plain ∧
        m.WellFormed ∧ m.plain.WellFormed) ∧
    (∀ source : RandomSource, (Machine.blank source).plain = blank source ∧
      (Machine.blank source).WellFormed ∧ (blank source).WellFormed) ∧
    (∀ (s : Plain) (actions : List Action), s.WellFormed → (∀ a ∈ actions, a.Admissible) →
      (s.performAll actions).WellFormed ∧
        ∀ a left f, a.Admissible → (exec a).run (s.performAll actions) = .error f left →
          ∃ r, f = .invalidOpcode r) ∧
    (∀ (m : Machine) (actions : List Action), m.WellFormed → (∀ a ∈ actions, a.Admissible) →
      (m.performAll actions).WellFormed ∧
        m.plain.performAll actions = (m.performAll actions).plain) := by
  refine ⟨?_, ?_, ?_, ?_⟩
  · intro rom source hrom
    have hm := Machine.wellFormed_withRom rom source
    exact ⟨_, Machine.load_of_fits hrom source, run_loadRom rom source, hm, wellFormed_plain hm⟩
  · intro source
    exact ⟨plain_blank source, Machine.wellFormed_blank source, wellFormed_blank source⟩
  · intro s actions h hactions
    have hs := h.performAll hactions
    exact ⟨hs, fun a left f ha hrun => failure_of_exec hs ha hrun⟩
  · intro m actions h hactions
    exact ⟨h.performAll actions, performAll_plain h hactions⟩

/-- The first word executed here has no instruction, nor has the word of the cycle: the byte at
the end of memory followed by the one at its start. -/
theorem wellFormed_of_host_after_faults :
    let rom : List Byte := [0x22, 0x00]
    let source := RandomSource.seeded 0
    let actions : List Action :=
      [.execute 0xF0FF, .setRegister (-1) 300, .load [-1, 0x100] 4095, .step, .executeGroup 0x00EE,
        .fetch, .cycle 3, .setKeys [-1, 17], .execute 0xFF15, .decay]
    rom.length ≤ romCapacity ∧ (blank source).WellFormed ∧ (∀ a ∈ actions, a.Admissible) ∧
      (∃ m, Machine.load rom source = .ok m ∧ m.plain.WellFormed) ∧
      ((blank source).performAll actions).WellFormed ∧
      ((Machine.blank source).performAll actions).WellFormed := by
  intro rom source actions
  have hrom : rom.length ≤ romCapacity := by decide
  have hactions : ∀ a ∈ actions, a.Admissible := by
    simp [actions, Action.Admissible]
  obtain ⟨hload, hblank, hplain, hmachine⟩ := wellFormed_of_host
  obtain ⟨m, hm, -, -, hwf⟩ := hload rom source hrom
  obtain ⟨-, hmblank, hpblank⟩ := hblank source
  exact ⟨hrom, hpblank, hactions, ⟨m, hm, hwf⟩, (hplain _ _ hpblank hactions).1,
    (hmachine _ _ hmblank hactions).1⟩

end ChipEight.Plain
