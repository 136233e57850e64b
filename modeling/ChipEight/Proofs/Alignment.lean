/-
# `ChipEight.Proofs.Alignment` — instructions stay at even addresses

An instruction takes two bytes, and a ROM starts at an even address.  What could bring the
program counter to an odd one is a jump or a call: their targets are written out in the
program, or come from a register.  If those are even, so is everything else: a skip, the
wait for a key and the wrap at the end of memory move the program counter by two, and a
return goes to an entry of the stack, whether or not a call has put it there.

So the invariant is about the program counter and all sixteen entries of the stack, which
start at zero.

**Proved here.**

    one instruction with an even target keeps both even        (`Aligned.apply`)
    so does a step, also one that faults                       (`Aligned.step`)
    so does everything in a run of a ROM, and whatever
    address it records or reports is even                      (`aligned_of_even_targets`)
-/
import ChipEight.Proofs.FaultReport
import ChipEight.Proofs.HostRun
import ChipEight.Proofs.Moments
import ChipEight.Proofs.Trace
import ChipEight.Proofs.Words

namespace ChipEight

namespace Machine

/-- The program counter and all entries of the stack are even. -/
structure Aligned (m : Machine) : Prop where
  pc : m.pc % 2 = 0
  stack : ∀ slot : Fin 16, m.stack.get slot % 2 = 0

/-- If the instruction is a jump or a call, it goes to an even address. -/
def GoesEven (m : Machine) : Instruction → Prop
  | .jump target => target.val % 2 = 0
  | .call target => target.val % 2 = 0
  | .jumpOffset target => ((m.reg 0).toNat + target.val) % 2 = 0
  | _ => True

/-- If the word at the program counter is one of a jump or a call, its target is even. -/
def EvenTarget (m : Machine) : Prop :=
  (m.word.group = 0x1 ∨ m.word.group = 0x2 → m.word.nnn.val % 2 = 0) ∧
    (m.word.group = 0xB → ((m.reg 0).toNat + m.word.nnn.val) % 2 = 0)

theorem EvenTarget.goesEven {m : Machine} (h : m.EvenTarget) {i : Instruction}
    (hi : m.word.decode = some i) : m.fetched.GoesEven i := by
  obtain ⟨hgroup, hfits⟩ := Word.decode_eq_some_iff.1 hi
  obtain ⟨hjump, hoffset⟩ := h
  cases i with
  | jump target =>
      obtain rfl : m.word.nnn = target := hfits
      exact hjump (.inl hgroup)
  | call target =>
      obtain rfl : m.word.nnn = target := hfits
      exact hjump (.inr hgroup)
  | jumpOffset target =>
      obtain rfl : m.word.nnn = target := hfits
      exact hoffset hgroup
  | _ => exact trivial

theorem EvenTarget.of_word {m : Machine} {w : Word} (hw : m.word = w)
    (hjump : w.group = 0x1 ∨ w.group = 0x2 → w.nnn.val % 2 = 0) (hoffset : w.group ≠ 0xB) :
    m.EvenTarget := by
  subst hw
  exact ⟨hjump, fun h => absurd h hoffset⟩

namespace Aligned

variable {m : Machine}

/-! ## Instructions -/

/-- Only two fields matter. -/
theorem of_eq (h : m.Aligned) {m' : Machine} (hpc : m'.pc = m.pc) (hstack : m'.stack = m.stack) :
    m'.Aligned where
  pc := hpc ▸ h.pc
  stack := hstack ▸ h.stack

theorem withPc (h : m.Aligned) {pc : Int} (hpc : pc % 2 = 0) : { m with pc }.Aligned :=
  ⟨hpc, h.stack⟩

theorem withRegisters (h : m.Aligned) (registers : Vector Byte 16) :
    { m with registers }.Aligned :=
  h.of_eq rfl rfl

theorem withKeypad (h : m.Aligned) (keypad : Keypad) : { m with keypad }.Aligned :=
  h.of_eq rfl rfl

/-- Two further on is even also behind the last word of memory. -/
theorem skipNext (h : m.Aligned) : m.skipNext.Aligned := by
  refine h.withPc ?_
  have hpc := h.pc
  omega

theorem rewind (h : m.Aligned) : m.rewind.Aligned := by
  refine h.withPc ?_
  have hpc := h.pc
  omega

theorem callAt (h : m.Aligned) {target : Address} (htarget : target.val % 2 = 0) :
    (m.callAt target).Aligned := by
  constructor
  · show (target.val : Int) % 2 = 0
    omega
  · intro slot
    show (m.stack.set (residue 16 m.sp) m.pc)[slot.val] % 2 = 0
    rw [Vector.getElem_set]
    split
    · exact h.pc
    · exact h.stack slot

/-- A return may go to any entry of the stack. -/
theorem resume (h : m.Aligned) : m.resume.Aligned := ⟨h.stack _, h.stack⟩

theorem awaitKeyInto (h : m.Aligned) (x : Register) : (m.awaitKeyInto x).Aligned := by
  rw [Machine.awaitKeyInto]
  split
  · exact h.of_eq rfl rfl
  · exact h.rewind

theorem apply (h : m.Aligned) {i : Instruction} (hi : m.GoesEven i) : (m.apply i).Aligned := by
  cases i with
  | ret => exact h.resume
  | jump target =>
      have heven : target.val % 2 = 0 := hi
      exact h.withPc (by omega)
  | call target => exact h.callAt hi
  | jumpOffset target =>
      have heven : ((m.reg 0).toNat + target.val) % 2 = 0 := hi
      exact h.withPc (by omega)
  | skip c =>
      rw [Machine.apply]
      split
      · exact h.skipNext
      · exact h
  | combine o x y =>
      simp only [Machine.apply, combineInto]
      split
      · exact h.of_eq rfl rfl
      · exact h.of_eq rfl rfl
  | awaitKey x => exact h.awaitKeyInto x
  | fill x => exact h.withRegisters _
  | _ => exact h.of_eq rfl rfl

/-! ## Steps and what a host does -/

theorem step (h : m.Aligned) (heven : ∀ next, m.step = .ok next → m.EvenTarget) :
    (leftBy m.step).Aligned := by
  cases hstep : m.step with
  | ok next =>
      obtain ⟨i, hi, rfl⟩ := step_eq_ok_iff.1 hstep
      exact h.skipNext.apply ((heven _ hstep).goesEven hi)
  | error halt =>
      obtain ⟨-, rfl⟩ := step_eq_error_iff.1 hstep
      exact h.skipNext

theorem decay (h : m.Aligned) : m.decay.Aligned := h.of_eq rfl rfl

theorem perform (h : m.Aligned) {a : Action} (ha : a.Runs) (heven : a = .step → m.EvenTarget) :
    (m.perform a).Aligned := by
  cases ha with
  | step => exact h.step fun _ _ => heven rfl
  | decay => exact h.decay
  | press key => exact h.withKeypad _
  | release key => exact h.withKeypad _
  | setKeys keys => exact h.withKeypad _

theorem performAll (actions : List Action) : ∀ {m : Machine}, m.Aligned →
    (∀ a ∈ actions, a.Runs) → m.BeforeSteps EvenTarget actions →
    (m.performAll actions).Aligned := by
  induction actions with
  | nil => exact fun h _ _ => h
  | cons a actions ih =>
      intro m h hruns heven
      obtain ⟨hfirst, hrest⟩ := List.forall_mem_cons.1 hruns
      exact ih (h.perform hfirst heven.1) hrest heven.2

/-- The address of a fault is where the program counter was. -/
theorem address_of_fault (h : m.Aligned) {halt : Halt} (hstep : m.step = .error halt) :
    halt.fault.address.val % 2 = 0 := by
  obtain ⟨-, -, haddress, -⟩ := fault_of_step hstep
  have hpc := h.pc
  omega

end Aligned

theorem aligned_withRom (rom : List Byte) (source : RandomSource) : (withRom rom source).Aligned := by
  constructor
  · show (romStart : Int) % 2 = 0
    decide
  · intro slot
    show (Vector.replicate 16 (0 : Int))[slot.val] % 2 = 0
    rw [Vector.getElem_replicate]
    rfl

theorem aligned_of_load {rom : List Byte} {source : RandomSource} {m : Machine}
    (h : load rom source = .ok m) : m.Aligned := by
  rw [load] at h
  split at h
  · cases h
  · cases h
    exact aligned_withRom rom source

end Machine

namespace Run

open Machine (Aligned EvenTarget)

theorem aligned_of_start {rom : List Byte} {options : Options} {keys : List Int} {chosenSeed : Int}
    {m : Machine} (h : start rom options keys chosenSeed = .ok m) : m.Aligned := by
  obtain ⟨-, rfl⟩ := start_eq_ok_iff.1 h
  exact (Machine.aligned_withRom rom _).withKeypad _

/-- The program counter is behind the word at fault, perhaps at the other end of memory. -/
theorem even_of_behind {pc address : Int} (hpc : pc = (address + 2) % 4096) (heven : pc % 2 = 0) :
    address % 2 = 0 := by
  omega

/-- A host loads a ROM and steps it, counts its timers down and changes the keys, in any order and
also past faults.  If each jump and call that it steps into has an even target, the program counter
and all entries of the stack are even in every state that it comes through, and so is the address
of a fault in any of them.  If the same is true of what a headless run executes, the machine that it
ends with is like that, and all the addresses that it records and the one that it reports are
even. -/
theorem aligned_of_even_targets :
    (∀ (rom : List Byte) (source : RandomSource) (m : Machine) (actions : List Action),
      Machine.load rom source = .ok m → (∀ a ∈ actions, a.Runs) →
      m.BeforeSteps EvenTarget actions → ∀ before, before <+: actions →
        (m.performAll before).Aligned ∧
          ∀ halt, (m.performAll before).step = .error halt →
            halt.machine.Aligned ∧ halt.fault.address.val % 2 = 0) ∧
    ∀ (rom : List Byte) (ticks : Int) (options : Options) (keys : List Int) (chosenSeed : Int)
      (r : Run), ofRom rom ticks options keys chosenSeed = .ok r →
      ∃ m, start rom options keys chosenSeed = .ok m ∧
        let mids := m.momentsIn (List.replicate ticks.toNat options.instructionsPerTick)
        ((∀ mid ∈ mids, mid.EvenTarget) →
          (∀ mid ∈ mids, mid.Aligned) ∧ r.machine.Aligned ∧
            (∀ e ∈ r.trace, e.address % 2 = 0) ∧
            ∀ report, r.report = some report → report.address % 2 = 0) := by
  constructor
  · rintro rom source m actions hload hruns heven before ⟨after, rfl⟩
    have hbefore : ∀ a ∈ before, a.Runs := fun a ha => hruns a (List.mem_append_left _ ha)
    have haligned := Aligned.performAll before (Machine.aligned_of_load hload) hbefore
      (Machine.beforeSteps_append before after heven).1
    refine ⟨haligned, fun halt hstep => ⟨?_, haligned.address_of_fault hstep⟩⟩
    have hleft := haligned.step fun next hok => nomatch hstep.symm.trans hok
    rwa [hstep] at hleft
  · intro rom ticks options keys chosenSeed r hrun
    obtain ⟨m, hstart, rfl⟩ := ofRom_eq_ok_iff.1 hrun
    obtain ⟨hmachine, -, hfault⟩ := onward_eq_calls options ticks.toNat 0 ⟨m, #[]⟩
    refine ⟨m, hstart, fun heven => ?_⟩
    obtain ⟨hlast, hmids⟩ := Machine.invariant_callCycles Aligned.step Aligned.decay _
      (aligned_of_start hstart) heven
    refine ⟨hmids, hmachine ▸ hlast, ?_, ?_⟩
    · intro e he
      have hentry : e ∈ m.executedIn (List.replicate ticks.toNat options.instructionsPerTick) := by
        have htrace := trace_of_start options m ticks.toNat
        rw [← Array.mem_toList_iff, htrace] at he
        split at he
        · exact List.mem_of_mem_take he
        · cases he
      rw [Machine.executedIn_eq_map] at hentry
      obtain ⟨mid, hmid, rfl⟩ := List.mem_map.1 hentry
      exact (hmids mid hmid).pc
    · intro found hfound
      rw [report] at hfound
      obtain ⟨f, hf, rfl⟩ := Option.map_eq_some_iff.1 hfound
      obtain ⟨-, last, -, -, -, -, -, hstep⟩ :=
        Machine.callCycles_replicate_fault (hfault.symm.trans hf)
      obtain ⟨-, hpc⟩ := Machine.read_at_fault hstep
      exact even_of_behind hpc hlast.pc

/-- Calls the return behind the word without an instruction that it returns to. -/
def callingRom : List Byte := [0x22, 0x04, 0x00, 0x01, 0x00, 0xEE]

def callingStart : Machine := (Machine.withRom callingRom (.seeded 7)).setKeys [3]

theorem callingStart_steps :
    ∃ m₁ m₂ left, (callingStart.step = .ok m₁ ∧ m₁.step = .ok m₂ ∧
      m₂.decay.step = .error ⟨⟨0x0001, 514⟩, left⟩) ∧
      callingStart.EvenTarget ∧ m₁.EvenTarget ∧ m₂.decay.EvenTarget := by
  let m₁ := callingStart.fetched.apply (.call 0x204)
  let m₂ := m₁.fetched.apply .ret
  have hrom : callingRom.length ≤ romCapacity := by decide
  have e₀ : callingStart.memory = (Machine.withRom callingRom (.seeded 7)).memory := rfl
  have e₁ : m₁.memory = (Machine.withRom callingRom (.seeded 7)).memory := rfl
  have e₂ : m₂.decay.memory = (Machine.withRom callingRom (.seeded 7)).memory := rfl
  have p₀ : callingStart.pc = romStart + (0 : Nat) := rfl
  have p₁ : m₁.pc = romStart + (4 : Nat) := rfl
  have p₂ : m₂.decay.pc = romStart + (2 : Nat) := rfl
  have w₀ : callingStart.word = 0x2204 := Machine.word_withRom e₀ hrom p₀ (by decide) (by decide)
  have w₁ : m₁.word = 0x00EE := Machine.word_withRom e₁ hrom p₁ (by decide) (by decide)
  have w₂ : m₂.decay.word = 0x0001 := Machine.word_withRom e₂ hrom p₂ (by decide) (by decide)
  have h₀ : callingStart.step = .ok m₁ := Machine.step_of_decode w₀ rfl
  have h₁ : m₁.step = .ok m₂ := Machine.step_of_decode w₁ rfl
  have h₂ : m₂.decay.step = .error ⟨⟨0x0001, 514⟩, m₂.decay.fetched⟩ :=
    Machine.step_of_unassigned w₂ rfl
  exact ⟨m₁, m₂, m₂.decay.fetched, ⟨h₀, h₁, h₂⟩, .of_word w₀ (by decide) (by decide),
    .of_word w₁ (by decide) (by decide), .of_word w₂ (by decide) (by decide)⟩

/-- Two steps, a count-down and a step that faults, by hand and as two ticks of two steps each. -/
theorem aligned_of_even_targets_after_return :
    let before : List Action := [.setKeys [3], .step, .step, .decay]
    let m := Machine.withRom callingRom (.seeded 7)
    (Machine.load callingRom (.seeded 7) = .ok m ∧ (∀ a ∈ before ++ [.step], a.Runs) ∧
      m.BeforeSteps EvenTarget (before ++ [.step]) ∧ before <+: before ++ [.step] ∧
      (m.performAll before).Aligned ∧
      ∃ halt, (m.performAll before).step = .error halt ∧ halt.machine.Aligned) ∧
    ∃ r, ofRom callingRom 2 { instructionsPerTick := 2, seed := some 7, trace := true } [3] 0 =
        .ok r ∧
      (∀ mid ∈ callingStart.momentsIn [2, 2], mid.EvenTarget) ∧ r.machine.Aligned ∧
      ∀ e ∈ r.trace, e.address % 2 = 0 := by
  intro before m
  obtain ⟨m₁, m₂, left, ⟨h₀, h₁, h₂⟩, v₀, v₁, v₂⟩ := callingStart_steps
  have hrom : callingRom.length ≤ romCapacity := by decide
  have hload := Machine.load_of_fits hrom (.seeded 7)
  obtain ⟨hhost, hheadless⟩ := aligned_of_even_targets
  constructor
  · have hruns : ∀ a ∈ before ++ [.step], a.Runs := by
      simp only [before, List.cons_append, List.nil_append, List.forall_mem_cons]
      exact ⟨.setKeys _, .step, .step, .decay, .step, fun _ h => absurd h List.not_mem_nil⟩
    have a₀ : m.attempt (.setKeys [3]) = .ok callingStart := rfl
    have a₁ : callingStart.attempt .step = .ok m₁ := h₀
    have a₂ : m₁.attempt .step = .ok m₂ := h₁
    have a₃ : m₂.attempt .decay = .ok m₂.decay := rfl
    have hkeys : Action.setKeys [3] = .step → m.EvenTarget := by
      intro h
      cases h
    have hdecay : Action.decay = .step → m₂.EvenTarget := by
      intro h
      cases h
    have heven : m.BeforeSteps EvenTarget (before ++ [.step]) :=
      Machine.beforeSteps_cons_of_ok a₀ hkeys <| Machine.beforeSteps_cons_of_ok a₁ (fun _ => v₀) <|
        Machine.beforeSteps_cons_of_ok a₂ (fun _ => v₁) <|
          Machine.beforeSteps_cons_of_ok a₃ hdecay ⟨fun _ => v₂, trivial⟩
    have hlast : m.performAll before = m₂.decay := by
      rw [Machine.performAll_cons_of_ok a₀, Machine.performAll_cons_of_ok a₁,
        Machine.performAll_cons_of_ok a₂, Machine.performAll_cons_of_ok a₃]
      rfl
    have hprefix : before <+: before ++ [.step] := ⟨_, rfl⟩
    obtain ⟨haligned, hfault⟩ := hhost callingRom _ m _ hload hruns heven before hprefix
    have hhalt := (congrArg Machine.step hlast).trans h₂
    exact ⟨hload, hruns, heven, hprefix, haligned, _, hhalt, (hfault _ hhalt).1⟩
  · let options : Options := { instructionsPerTick := 2, seed := some 7, trace := true }
    have hseed : options.seed = some 7 := rfl
    have hrun := ofRom_of_fits hrom 2 hseed [3] 0
    obtain ⟨m', hstart, hend⟩ := hheadless _ _ _ _ _ _ hrun
    obtain rfl : callingStart = m' := (start_eq_ok_iff.1 hstart).2
    have hfirst : callingStart.cycle 2 = .ok m₂.decay :=
      Machine.cycle_of_steps
        ((Machine.steps_succ_of_ok h₀ 1).trans (Machine.steps_succ_of_ok h₁ 0))
    have hsecond := Machine.cycle_of_halted (n := 2) (Machine.steps_succ_of_error h₂ 1)
    have hmids : callingStart.momentsIn [2, 2] = [callingStart, m₁] := by
      rw [Machine.momentsIn_cons_of_ok hfirst, Machine.momentsIn_cons_of_error hsecond,
        show (2 : Int).toNat = 2 from rfl, Machine.moments_succ_of_ok h₀,
        Machine.moments_succ_of_ok h₁, Machine.moments_succ_of_error h₂]
      rfl
    have heven : ∀ mid ∈ callingStart.momentsIn [2, 2], mid.EvenTarget := by
      rw [hmids, List.forall_mem_cons, List.forall_mem_singleton]
      exact ⟨v₀, v₁⟩
    obtain ⟨-, haligned, htrace, -⟩ := hend heven
    exact ⟨_, hrun, heven, haligned, htrace⟩

end Run

end ChipEight
