/-
# `ChipEight.Proofs.Devices` — machines that differ in their devices

Keypad, screen, the two timers and the source of random bytes lie at the edge of the
machine: nothing that leads from one instruction to the next depends on them, but for
the few instructions that read them.  Two machines that differ in some of the devices
only therefore stay together until one of their readers comes.

**Proved here**, of machines in range that are equal outside some devices:

    agreement and ranges come to equality outside the devices       (`Agree.equalOutside`)
    a step that reads none of them ends in the same way             (`EqualOutside.step`)
    so does any number of steps, with the same words executed       (`Agree.executed_of_unread`)
-/
import ChipEight.Proofs.Agreement
import ChipEight.Proofs.Executed
import ChipEight.Proofs.HostRun
import ChipEight.Proofs.Words

namespace ChipEight

/-- A part of the machine besides registers, memory, stack, and the numbers that lead through
them. -/
inductive Device where
  | keypad
  | screen
  | delay
  | sound
  | source
  deriving DecidableEq, Repr

def Device.component : Device → Component
  | .keypad => .keypad
  | .screen => .screen
  | .delay => .delay
  | .sound => .sound
  | .source => .source

theorem Device.eq_of_component_eq {d d' : Device} (h : d.component = d'.component) : d = d' := by
  cases d <;> cases d' <;> first | rfl | cases h

theorem Device.component_ne_cell (d : Device) (a : Address) : d.component ≠ .cell a := by
  cases d <;> exact nofun

/-- Whether the instruction of a word reads a device: the keypad is read by the two skips on a key
and by the wait for one, the screen by drawing, the delay timer by the instruction that loads it,
the source by the random byte, and the sound timer by none. -/
def Word.Reads (w : Word) : Device → Prop
  | .keypad => (w.group = 0xE ∧ (w.n.val = 0x1 ∨ w.n.val = 0xE)) ∨
      (w.group = 0xF ∧ w.kk.toNat = 0x0A)
  | .screen => w.group = 0xD
  | .delay => w.group = 0xF ∧ w.kk.toNat = 0x07
  | .sound => False
  | .source => w.group = 0xC

instance (w : Word) : DecidablePred w.Reads
  | .keypad => instDecidableOr
  | .screen => Nat.decEq _ _
  | .delay => instDecidableAnd
  | .sound => instDecidableFalse
  | .source => Nat.decEq _ _

/-- The table of readers misses none. -/
theorem Word.reads_of_mem_reads {w : Word} {i : Instruction} (hi : w.decode = some i) {m : Machine}
    {d : Device} (h : d.component ∈ m.reads i) : w.Reads d := by
  obtain ⟨hgroup, hfits⟩ := Word.decode_eq_some_iff.1 hi
  cases i with
  | skip c =>
      cases c with
      | held x =>
          obtain rfl : d = .keypad := Device.eq_of_component_eq (List.mem_singleton.1 h)
          exact .inl ⟨hgroup, .inr hfits.1⟩
      | free x =>
          obtain rfl : d = .keypad := Device.eq_of_component_eq (List.mem_singleton.1 h)
          exact .inl ⟨hgroup, .inl hfits.1⟩
      | _ => cases h
  | random x mask =>
      obtain rfl : d = .source := Device.eq_of_component_eq (List.mem_singleton.1 h)
      exact hgroup
  | draw x y n =>
      rcases List.mem_cons.1 h with hscreen | hcell
      · obtain rfl : d = .screen := Device.eq_of_component_eq hscreen
        exact hgroup
      · obtain ⟨a, -, ha⟩ := List.mem_map.1 hcell
        exact absurd ha.symm (d.component_ne_cell a)
  | readDelay x =>
      obtain rfl : d = .delay := Device.eq_of_component_eq (List.mem_singleton.1 h)
      exact ⟨hgroup, hfits.1⟩
  | awaitKey x =>
      obtain rfl : d = .keypad := Device.eq_of_component_eq (List.mem_singleton.1 h)
      exact .inr ⟨hgroup, hfits.1⟩
  | fill x =>
      obtain ⟨a, -, ha⟩ := List.mem_map.1 h
      exact absurd ha.symm (d.component_ne_cell a)
  | _ => cases h

namespace Machine

/-! ## Equality outside some devices -/

/-- Two machines that are equal but for the devices in `hidden`. -/
structure EqualOutside (hidden : Device → Prop) (m m' : Machine) : Prop where
  registers : m.registers = m'.registers
  memory : m.memory = m'.memory
  stack : m.stack = m'.stack
  keypad : ¬ hidden .keypad → m.keypad = m'.keypad
  screen : ¬ hidden .screen → m.screen = m'.screen
  index : m.index = m'.index
  pc : m.pc = m'.pc
  sp : m.sp = m'.sp
  delay : ¬ hidden .delay → m.delay = m'.delay
  sound : ¬ hidden .sound → m.sound = m'.sound
  source : ¬ hidden .source → m.source = m'.source

/-- The components that are devices in `hidden`. -/
def devices (hidden : Device → Prop) (c : Component) : Prop := ∃ d, hidden d ∧ d.component = c

/-- None of the words reads a device in `hidden`. -/
def Unread (hidden : Device → Prop) (entries : List Entry) : Prop :=
  ∀ e ∈ entries, ∀ d, e.word.Reads d → ¬ hidden d

section

variable {hidden : Device → Prop} {m m' : Machine}

theorem not_devices_cell (a : Address) : ¬ devices hidden (.cell a) := by
  rintro ⟨d, -, hd⟩
  exact d.component_ne_cell a hd

theorem not_devices_iff {d : Device} : ¬ devices hidden d.component ↔ ¬ hidden d := by
  constructor
  · exact fun h hd => h ⟨d, hd, rfl⟩
  · rintro h ⟨d', hd', heq⟩
    exact h (Device.eq_of_component_eq heq ▸ hd')

theorem EqualOutside.agree (h : EqualOutside hidden m m') : Agree (devices hidden) m m' where
  registers := h.registers
  memory addr _ := by rw [h.memory]
  stack slot := by rw [h.stack]
  keypad hc := h.keypad (not_devices_iff.1 hc)
  screen hc := h.screen (not_devices_iff.1 hc)
  index := by rw [h.index]
  pc := by rw [h.pc]
  sp := by rw [h.sp]
  delay hc := h.delay (not_devices_iff.1 hc)
  sound hc := h.sound (not_devices_iff.1 hc)
  source hc := h.source (not_devices_iff.1 hc)

theorem Agree.equalOutside (h : Agree (devices hidden) m m') (hm : m.WellFormed)
    (hm' : m'.WellFormed) : EqualOutside hidden m m' := by
  obtain ⟨hstack, hindex, hpc, hsp⟩ := h.eq_in_range hm hm'
  exact {
    registers := h.registers
    memory := Memory.eq_of_read fun addr => h.memory addr (not_devices_cell _)
    stack := hstack
    keypad := fun hd => h.keypad (not_devices_iff.2 hd)
    screen := fun hd => h.screen (not_devices_iff.2 hd)
    index := hindex
    pc := hpc
    sp := hsp
    delay := fun hd => h.delay (not_devices_iff.2 hd)
    sound := fun hd => h.sound (not_devices_iff.2 hd)
    source := fun hd => h.source (not_devices_iff.2 hd) }

/-! ## One step -/

theorem Agree.word_outside (h : Agree (devices hidden) m m') : m.word = m'.word :=
  h.word fun a _ => not_devices_cell a

theorem Agree.step_of_unread (h : Agree (devices hidden) m m')
    (hunread : m.word.decode ≠ none → ∀ d, m.word.Reads d → ¬ hidden d) :
    SameOutcome (devices hidden) m.step m'.step := by
  refine (h.step ?_).2.mono fun _ => hidden_of_unwritten
  rintro _ hc ⟨d, hd, rfl⟩
  rcases List.mem_append.1 hc with hcell | hread
  · obtain ⟨a, -, ha⟩ := List.mem_map.1 hcell
    exact d.component_ne_cell a ha.symm
  · rw [wordReads] at hread
    cases hi : m.word.decode with
    | some i =>
        rw [hi] at hread hunread
        exact hunread (Option.some_ne_none i) d (Word.reads_of_mem_reads hi hread) hd
    | none =>
        rw [hi] at hread
        cases hread

theorem SameOutcome.faultOf {r r' : Except Halt Machine} (h : SameOutcome (devices hidden) r r') :
    faultOf r = Machine.faultOf r' := by
  cases h with
  | ok _ => rfl
  | error _ _ => rfl

theorem EqualOutside.step (h : EqualOutside hidden m m') (hm : m.WellFormed) (hm' : m'.WellFormed)
    (hunread : ∀ d, m.word.Reads d → ¬ hidden d) :
    m.word = m'.word ∧ faultOf m.step = faultOf m'.step ∧
      EqualOutside hidden (leftBy m.step) (leftBy m'.step) := by
  have houtcome := h.agree.step_of_unread fun _ => hunread
  exact ⟨h.agree.word_outside, houtcome.faultOf, houtcome.leftBy.equalOutside hm.step hm'.step⟩

/-! ## Several steps -/

/-- By induction on the number of steps.  It is enough that one of the two runs has no reader: as
long as they are together both execute the same word. -/
theorem Agree.executed_of_unread (n : Nat) : ∀ {m m' : Machine}, Agree (devices hidden) m m' →
    m.WellFormed → m'.WellFormed →
    Unread hidden (m.executed n) ∨ Unread hidden (m'.executed n) →
    m.executed n = m'.executed n ∧ SameOutcome (devices hidden) (m.steps n) (m'.steps n) := by
  induction n with
  | zero => exact fun h _ _ _ => ⟨rfl, .ok h⟩
  | succ n ih =>
      intro m m' h hm hm' hunread
      have hword : m.word = m'.word := h.word_outside
      have hpc : m.pc = m'.pc := (h.eq_in_range hm hm').2.2.1
      cases hi : m.word.decode with
      | some i =>
          have hstep := step_of_decode rfl hi
          have hstep' := step_of_decode hword.symm hi
          rw [executed_succ_of_ok hstep, executed_succ_of_ok hstep', ← hpc, ← hword] at hunread ⊢
          have hfirst : ∀ d, m.word.Reads d → ¬ hidden d :=
            hunread.elim (· _ List.mem_cons_self) (· _ List.mem_cons_self)
          have hrest : Unread hidden ((m.fetched.apply i).executed n) ∨
              Unread hidden ((m'.fetched.apply i).executed n) :=
            hunread.imp (fun hquiet e he => hquiet e (List.mem_cons_of_mem _ he))
              (fun hquiet e he => hquiet e (List.mem_cons_of_mem _ he))
          have houtcome := h.step_of_unread fun _ => hfirst
          rw [hstep, hstep'] at houtcome
          cases houtcome with
          | ok hnext =>
              obtain ⟨hentries, hsteps⟩ :=
                ih hnext (hm.step_ok hstep) (hm'.step_ok hstep') hrest
              rw [steps_succ_of_ok hstep, steps_succ_of_ok hstep', hentries]
              exact ⟨rfl, hsteps⟩
      | none =>
          have hstep := step_of_unassigned rfl hi
          have hstep' := step_of_unassigned hword.symm hi
          have houtcome := h.step_of_unread fun hassigned => absurd hi hassigned
          rw [hstep, hstep'] at houtcome
          rw [executed_succ_of_error hstep, executed_succ_of_error hstep',
            steps_succ_of_error hstep, steps_succ_of_error hstep']
          exact ⟨rfl, houtcome⟩

end

end Machine

end ChipEight
