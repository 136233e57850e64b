/-
# `ChipEight.Proofs.Noninterference` — what a device holds shows only where it is read

Two machines that differ in some devices only are put through the same actions: steps,
count-downs of the timers and key presses, in the same order.  As long as the first of
them comes to no instruction that reads one of the devices, the second executes the same
words at the same addresses, faults where the first does, and never differs from it
elsewhere.  Nothing reads the sound timer, so two machines that differ in it alone do so
under all programs and for ever.

**Proved here.**

    one action keeps the machines equal outside the devices      (`EqualOutside.perform`)
    so does any sequence of them                                 (`EqualOutside.performAll`)
    and every step of it ends in the same way on both            (`alike_of_unread`)
-/
import ChipEight.Proofs.Devices

namespace ChipEight.Machine

/-- The machine does not stand at a reader of a device in `hidden`. -/
def ReadsNone (hidden : Device → Prop) (m : Machine) : Prop := ∀ d, m.word.Reads d → ¬ hidden d

section

variable {hidden : Device → Prop} {m m' : Machine}

theorem EqualOutside.withKeypad (h : EqualOutside hidden m m') {pad pad' : Keypad}
    (hpad : ¬ hidden .keypad → pad = pad') :
    EqualOutside hidden { m with keypad := pad } { m' with keypad := pad' } :=
  { h with keypad := hpad }

theorem EqualOutside.perform (h : EqualOutside hidden m m') (hm : m.WellFormed)
    (hm' : m'.WellFormed) {a : Action} (ha : a.Runs) (hunread : a = .step → m.ReadsNone hidden) :
    EqualOutside hidden (m.perform a) (m'.perform a) := by
  cases ha with
  | step => exact (h.step hm hm' (hunread rfl)).2.2
  | decay =>
      exact { h with
        delay := fun hd => congrArg countDown (h.delay hd)
        sound := fun hd => congrArg countDown (h.sound hd) }
  | press key => exact h.withKeypad fun hd => congrArg (·.press key) (h.keypad hd)
  | release key => exact h.withKeypad fun hd => congrArg (·.release key) (h.keypad hd)
  | setKeys keys => exact h.withKeypad fun _ => rfl

theorem EqualOutside.performAll {actions : List Action} (hruns : ∀ a ∈ actions, a.Runs) :
    ∀ {m m' : Machine}, EqualOutside hidden m m' → m.WellFormed → m'.WellFormed →
      m.BeforeSteps (ReadsNone hidden) actions →
      EqualOutside hidden (m.performAll actions) (m'.performAll actions) := by
  induction actions with
  | nil => exact fun h _ _ _ => h
  | cons a actions ih =>
      obtain ⟨hfirst, hrest⟩ := List.forall_mem_cons.1 hruns
      intro m m' h hm hm' hunread
      exact ih hrest (h.perform hm hm' hfirst hunread.1) (hm.perform a) (hm'.perform a) hunread.2

end

/-- The same actions on two machines: each step finds the same word at the same address on both, and
completes on both or ends with the same fault, and after any number of the actions the machines are
equal outside some devices. -/
structure Alike (hidden : Device → Prop) (m m' : Machine) (actions : List Action) : Prop where
  steps : ∀ before after, actions = before ++ .step :: after →
    (m.performAll before).pc = (m'.performAll before).pc ∧
      (m.performAll before).word = (m'.performAll before).word ∧
      faultOf (m.performAll before).step = faultOf (m'.performAll before).step
  states : ∀ before after, actions = before ++ after →
    EqualOutside hidden (m.performAll before) (m'.performAll before)

theorem EqualOutside.alike {hidden : Device → Prop} {m m' : Machine} (h : EqualOutside hidden m m')
    (hm : m.WellFormed) (hm' : m'.WellFormed) {actions : List Action}
    (hruns : ∀ a ∈ actions, a.Runs) (hunread : m.BeforeSteps (ReadsNone hidden) actions) :
    Alike hidden m m' actions := by
  have hstates : ∀ before after, actions = before ++ after →
      EqualOutside hidden (m.performAll before) (m'.performAll before) := by
    rintro before after rfl
    exact EqualOutside.performAll (fun a ha => hruns a (List.mem_append_left _ ha)) h hm hm'
      (beforeSteps_append before after hunread).1
  refine ⟨?_, hstates⟩
  rintro before after rfl
  have hequal := hstates before (.step :: after) rfl
  have hhere := (beforeSteps_append before (.step :: after) hunread).2.1 rfl
  obtain ⟨hword, hfault, -⟩ := hequal.step (hm.performAll before) (hm'.performAll before) hhere
  exact ⟨hequal.pc, hword, hfault⟩

theorem readsNone_sound (m : Machine) : m.ReadsNone (· = .sound) := by
  rintro d hread rfl
  exact hread

/-- Machines in range that are equal outside some devices stay so under any steps, count-downs and
key presses, and every step executes the same word or ends with the same fault, if the first of them
comes to no reader of the devices.  Outside the sound timer they stay so whatever they come to. -/
theorem alike_of_unread :
    (∀ (hidden : Device → Prop) (m m' : Machine) (actions : List Action), m.WellFormed →
      m'.WellFormed → EqualOutside hidden m m' → (∀ a ∈ actions, a.Runs) →
      m.BeforeSteps (ReadsNone hidden) actions → Alike hidden m m' actions) ∧
    (∀ (m m' : Machine) (actions : List Action), m.WellFormed → m'.WellFormed →
      EqualOutside (· = .sound) m m' → (∀ a ∈ actions, a.Runs) →
      Alike (· = .sound) m m' actions) := by
  refine ⟨?_, ?_⟩
  · intro hidden m m' actions hm hm' h hruns hunread
    exact h.alike hm hm' hruns hunread
  · intro m m' actions hm hm' h hruns
    exact h.alike hm hm' hruns (beforeSteps_of_forall readsNone_sound actions m)

/-- Clears the screen, sets the sound timer and a register, and stops at an unassigned word. -/
def writingRom : List Byte := [0x00, 0xE0, 0xF0, 0x18, 0x60, 0x05, 0x00, 0x01]

def writing : Machine := withRom writingRom (.repeating [])

/-- The same machine with other contents in all its devices. -/
def writingElsewhere : Machine :=
  { writing with
    keypad := Keypad.empty.press 5, screen := Screen.blank.flip 0 1, delay := 3, sound := 9,
    source := .repeating [7] }

def writingActions : List Action := [.step, .decay, .step, .setKeys [2], .step, .step]

theorem writing_steps :
    ∃ m₁ m₂ m₃ left, writing.step = .ok m₁ ∧ m₁.decay.step = .ok m₂ ∧
      (m₂.setKeys [2]).step = .ok m₃ ∧ m₃.step = .error ⟨⟨0x0001, 518⟩, left⟩ ∧
      writing.word = 0x00E0 ∧ m₁.decay.word = 0xF018 ∧ (m₂.setKeys [2]).word = 0x6005 ∧
      m₃.word = 0x0001 := by
  let m₁ := writing.fetched.apply .clear
  let m₂ := m₁.decay.fetched.apply (.setSound 0)
  let m₃ := (m₂.setKeys [2]).fetched.apply (.put 0 0x05)
  have hrom : writingRom.length ≤ romCapacity := by decide
  have e₀ : writing.memory = (withRom writingRom (.repeating [])).memory := rfl
  have e₁ : m₁.decay.memory = (withRom writingRom (.repeating [])).memory := rfl
  have e₂ : (m₂.setKeys [2]).memory = (withRom writingRom (.repeating [])).memory := rfl
  have e₃ : m₃.memory = (withRom writingRom (.repeating [])).memory := rfl
  have p₀ : writing.pc = romStart + (0 : Nat) := rfl
  have p₁ : m₁.decay.pc = romStart + (2 : Nat) := rfl
  have p₂ : (m₂.setKeys [2]).pc = romStart + (4 : Nat) := rfl
  have p₃ : m₃.pc = romStart + (6 : Nat) := rfl
  have w₀ : writing.word = 0x00E0 := word_withRom e₀ hrom p₀ (by decide) (by decide)
  have w₁ : m₁.decay.word = 0xF018 := word_withRom e₁ hrom p₁ (by decide) (by decide)
  have w₂ : (m₂.setKeys [2]).word = 0x6005 := word_withRom e₂ hrom p₂ (by decide) (by decide)
  have w₃ : m₃.word = 0x0001 := word_withRom e₃ hrom p₃ (by decide) (by decide)
  exact ⟨m₁, m₂, m₃, m₃.fetched, step_of_decode w₀ rfl, step_of_decode w₁ rfl,
    step_of_decode w₂ rfl, step_of_unassigned w₃ rfl, w₀, w₁, w₂, w₃⟩

theorem readsNone_of_word {hidden : Device → Prop} {m : Machine} {w : Word} (hword : m.word = w)
    (hw : ∀ d, ¬ w.Reads d) : m.ReadsNone hidden :=
  fun d hread => absurd (hword ▸ hread) (hw d)

/-- All devices differ; the fault at the end is the same. -/
theorem alike_of_unread_devices :
    let hidden : Device → Prop := fun _ => True
    writing.WellFormed ∧ writingElsewhere.WellFormed ∧
      EqualOutside hidden writing writingElsewhere ∧ (∀ a ∈ writingActions, a.Runs) ∧
      writing.BeforeSteps (ReadsNone hidden) writingActions ∧
      Alike hidden writing writingElsewhere writingActions ∧
      faultOf (writingElsewhere.performAll [.step, .decay, .step, .setKeys [2], .step]).step =
        some ⟨0x0001, 518⟩ := by
  intro hidden
  obtain ⟨m₁, m₂, m₃, left, h₀, h₁, h₂, h₃, w₀, w₁, w₂, w₃⟩ := writing_steps
  have hwf : writing.WellFormed := wellFormed_withRom _ _
  have hwf' : writingElsewhere.WellFormed :=
    ⟨hwf.stack, hwf.index, hwf.pc, hwf.sp, by decide, by decide⟩
  have hequal : EqualOutside hidden writing writingElsewhere :=
    ⟨rfl, rfl, rfl, (absurd trivial ·), (absurd trivial ·), rfl, rfl, rfl, (absurd trivial ·),
      (absurd trivial ·), (absurd trivial ·)⟩
  have hruns : ∀ a ∈ writingActions, a.Runs := by
    simp only [writingActions, List.forall_mem_cons]
    exact ⟨.step, .decay, .step, .setKeys _, .step, .step, nofun⟩
  have r₀ : writing.ReadsNone hidden := readsNone_of_word w₀ (by rintro ⟨⟩ <;> decide)
  have r₁ : m₁.decay.ReadsNone hidden := readsNone_of_word w₁ (by rintro ⟨⟩ <;> decide)
  have r₂ : (m₂.setKeys [2]).ReadsNone hidden := readsNone_of_word w₂ (by rintro ⟨⟩ <;> decide)
  have r₃ : m₃.ReadsNone hidden := readsNone_of_word w₃ (by rintro ⟨⟩ <;> decide)
  have a₀ : writing.attempt .step = .ok m₁ := h₀
  have a₁ : m₁.attempt .decay = .ok m₁.decay := rfl
  have a₂ : m₁.decay.attempt .step = .ok m₂ := h₁
  have a₃ : m₂.attempt (.setKeys [2]) = .ok (m₂.setKeys [2]) := rfl
  have a₄ : (m₂.setKeys [2]).attempt .step = .ok m₃ := h₂
  have hunread : writing.BeforeSteps (ReadsNone hidden) writingActions :=
    beforeSteps_cons_of_ok a₀ (fun _ => r₀) <| beforeSteps_cons_of_ok a₁ nofun <|
      beforeSteps_cons_of_ok a₂ (fun _ => r₁) <| beforeSteps_cons_of_ok a₃ nofun <|
        beforeSteps_cons_of_ok a₄ (fun _ => r₂) ⟨fun _ => r₃, trivial⟩
  have halike := alike_of_unread.1 hidden _ _ _ hwf hwf' hequal hruns hunread
  have hlast : writing.performAll [.step, .decay, .step, .setKeys [2], .step] = m₃ := by
    rw [performAll_cons_of_ok a₀, performAll_cons_of_ok a₁, performAll_cons_of_ok a₂,
      performAll_cons_of_ok a₃, performAll_cons_of_ok a₄]
    rfl
  refine ⟨hwf, hwf', hequal, hruns, hunread, halike, ?_⟩
  rw [← (halike.steps _ [] rfl).2.2, hlast, h₃]
  rfl

end ChipEight.Machine
