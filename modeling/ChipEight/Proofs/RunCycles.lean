/-
# `ChipEight.Proofs.RunCycles` — a headless run is a series of cycles

A run of a ROM has two loops of its own: one that calls `Machine.cycle`, and, when
instructions are recorded, one that goes step by step and counts the timers down
itself.  Against both stands a host that loads the ROM, holds the keys and calls
`Machine.cycle` until its ticks are done or a call faults.

**Proved here.**

    a recorded tick does to the machine what a cycle does       (`unobserved_tick`)
    both loops of a run end as the series of calls ends         (`onward_eq_calls`)
    so a run is that series, recorded or not, and reports its
    fault in the tick that the fault cut short                  (`ofRom_eq_calls`)
-/
import ChipEight.Proofs.History
import ChipEight.Proofs.RomImage
import ChipEight.Run

namespace ChipEight

/-! ## A series of cycles -/

/-- How a host fares that calls `Machine.cycle` several times. -/
structure Calls where
  /-- The machine as the last call left it. -/
  machine : Machine
  completed : Nat
  /-- The fault of the call that did not complete. -/
  fault : Option Fault

/-- Calls `cycle` once for each batch, until a call faults. -/
def Machine.callCycles (m : Machine) : List Int → Calls
  | [] => ⟨m, 0, none⟩
  | batch :: batches =>
      match m.cycle batch with
      | .ok next =>
          let calls := next.callCycles batches
          { calls with completed := calls.completed + 1 }
      | .error halt => ⟨halt.machine, 0, some halt.fault⟩

theorem Machine.callCycles_cons_ok {m next : Machine} {batch : Int} (h : m.cycle batch = .ok next)
    (batches : List Int) :
    m.callCycles (batch :: batches) =
      { next.callCycles batches with completed := (next.callCycles batches).completed + 1 } := by
  rw [Machine.callCycles, h]

theorem Machine.callCycles_cons_error {m : Machine} {halt : Halt} {batch : Int}
    (h : m.cycle batch = .error halt) (batches : List Int) :
    m.callCycles (batch :: batches) = ⟨halt.machine, 0, some halt.fault⟩ := by
  rw [Machine.callCycles, h]

/-- Without a fault every call completes, with one not every call does. -/
theorem Machine.callCycles_completed (batches : List Int) : ∀ m : Machine,
    ((m.callCycles batches).fault = none → (m.callCycles batches).completed = batches.length) ∧
      ((m.callCycles batches).fault ≠ none →
        (m.callCycles batches).completed < batches.length) := by
  induction batches with
  | nil => exact fun m => ⟨fun _ => rfl, fun h => absurd rfl h⟩
  | cons batch batches ih =>
      intro m
      cases hcycle : m.cycle batch with
      | ok next =>
          obtain ⟨hall, hsome⟩ := ih next
          rw [callCycles_cons_ok hcycle]
          exact ⟨fun h => congrArg (· + 1) (hall h), fun h => Nat.succ_lt_succ (hsome h)⟩
      | error halt =>
          rw [callCycles_cons_error hcycle]
          exact ⟨nofun, fun _ => Nat.succ_pos _⟩

theorem Machine.fault_eq_none_iff {m : Machine} {batches : List Int} :
    (m.callCycles batches).fault = none ↔ (m.callCycles batches).completed = batches.length := by
  obtain ⟨hall, hnotall⟩ := callCycles_completed batches m
  refine ⟨hall, fun hlength => ?_⟩
  exact Decidable.by_contra fun hsome => Nat.ne_of_lt (hnotall hsome) hlength

/-! ## Machines under observation -/

namespace Observed

/-- What an observed computation does to the machine. -/
def unobserved : Except (Fault × Observed) Observed → Except Halt Machine
  | .ok o => .ok o.machine
  | .error (fault, left) => .error ⟨fault, left.machine⟩

theorem unobserved_step (room : Nat) (o : Observed) :
    unobserved (o.step room) = o.machine.step := by
  rw [← step_machine room o]
  cases o.step room <;> rfl

theorem unobserved_steps (room n : Nat) :
    ∀ o : Observed, unobserved (o.steps room n) = o.machine.steps n := by
  induction n with
  | zero => exact fun _ => rfl
  | succ n ih =>
      intro o
      rw [steps, Machine.steps, ← unobserved_step room o]
      cases o.step room with
      | ok next => exact ih next
      | error stop => rfl

theorem unobserved_tick (room : Nat) (batch : Int) (o : Observed) :
    unobserved (o.tick room batch.toNat) = o.machine.cycle batch := by
  rw [tick, Machine.cycle, ← unobserved_steps room]
  cases o.steps room batch.toNat <;> rfl

theorem unobserved_cycle (batch : Int) (o : Observed) :
    unobserved (o.cycle batch) = o.machine.cycle batch := by
  rw [cycle]
  cases o.machine.cycle batch <;> rfl

end Observed

/-! ## Runs -/

namespace Run

theorem unobserved_tick (options : Options) (o : Observed) :
    Observed.unobserved (tick options o) = o.machine.cycle options.instructionsPerTick := by
  rw [tick]
  split
  · exact Observed.unobserved_tick _ _ o
  · exact Observed.unobserved_cycle _ o

/-- The machine after `n` more ticks, their number and the fault, by induction on `n`: the series of
calls and the run take the same first tick, and a fault in it ends both. -/
theorem onward_eq_calls (options : Options) (n : Nat) : ∀ (done : Nat) (o : Observed),
    let calls := o.machine.callCycles (List.replicate n options.instructionsPerTick)
    (onward options n done o).machine = calls.machine ∧
      (onward options n done o).ticks = done + calls.completed ∧
      (onward options n done o).fault = calls.fault := by
  induction n with
  | zero => exact fun _ _ => ⟨rfl, rfl, rfl⟩
  | succ n ih =>
      intro done o
      have htick := unobserved_tick options o
      rw [List.replicate_succ, onward]
      cases hnext : tick options o with
      | ok next =>
          rw [hnext] at htick
          obtain ⟨hmachine, hticks, hfault⟩ := ih (done + 1) next
          rw [Machine.callCycles_cons_ok htick.symm]
          exact ⟨hmachine, by rw [hticks, Nat.add_right_comm, Nat.add_assoc], hfault⟩
      | error stop =>
          rw [hnext] at htick
          rw [Machine.callCycles_cons_error htick.symm]
          exact ⟨rfl, rfl, rfl⟩

theorem ofRom_eq_ok_iff {rom : List Byte} {ticks : Int} {options : Options} {keys : List Int}
    {chosenSeed : Int} {r : Run} :
    ofRom rom ticks options keys chosenSeed = .ok r ↔
      ∃ m, start rom options keys chosenSeed = .ok m ∧
        r = onward options ticks.toNat 0 ⟨m, #[]⟩ := by
  rw [ofRom]
  cases start rom options keys chosenSeed with
  | ok m =>
      constructor
      · intro h
        exact ⟨m, rfl, (Except.ok.inj h).symm⟩
      · rintro ⟨m', hm, rfl⟩
        rw [Except.ok.inj hm]
        rfl
  | error e =>
      constructor
      · intro h
        cases h
      · rintro ⟨m', hm, -⟩
        cases hm

/-- A run starts if the ROM fits, and then with the ROM in memory and the keys held. -/
theorem start_eq_ok_iff {rom : List Byte} {options : Options} {keys : List Int} {chosenSeed : Int}
    {m : Machine} :
    start rom options keys chosenSeed = .ok m ↔ rom.length ≤ romCapacity ∧
      (Machine.withRom rom (.seeded (options.seedOr chosenSeed))).setKeys keys = m := by
  rw [start, Machine.load]
  split
  · next hlarge =>
      constructor
      · intro h
        cases h
      · rintro ⟨hfits, -⟩
        exact absurd hlarge (Nat.not_lt.2 hfits)
  · next hfits =>
      constructor
      · intro h
        exact ⟨Nat.le_of_not_lt hfits, Except.ok.inj h⟩
      · rintro ⟨-, rfl⟩
        rfl

theorem wellFormed_of_start {rom : List Byte} {options : Options} {keys : List Int}
    {chosenSeed : Int} {m : Machine} (h : start rom options keys chosenSeed = .ok m) :
    m.WellFormed := by
  obtain ⟨-, rfl⟩ := start_eq_ok_iff.1 h
  exact (Machine.wellFormed_withRom rom _).withKeypad _

theorem exists_ofRom_of_fits {rom : List Byte} (hrom : rom.length ≤ romCapacity) (ticks : Int)
    (options : Options) (keys : List Int) (chosenSeed : Int) :
    ∃ r, ofRom rom ticks options keys chosenSeed = .ok r :=
  ⟨_, ofRom_eq_ok_iff.2 ⟨_, start_eq_ok_iff.2 ⟨hrom, rfl⟩, rfl⟩⟩

/-- Only its size keeps a ROM from being run. -/
theorem ofRom_eq_error_iff {rom : List Byte} {ticks : Int} {options : Options} {keys : List Int}
    {chosenSeed : Int} {e : RomTooLarge} :
    ofRom rom ticks options keys chosenSeed = .error e ↔
      romCapacity < rom.length ∧ e = ⟨rom.length⟩ := by
  rw [← Machine.load_eq_error_iff rom (.seeded (options.seedOr chosenSeed)), ofRom, start]
  cases Machine.load rom (.seeded (options.seedOr chosenSeed)) with
  | ok m => exact ⟨nofun, nofun⟩
  | error e' =>
      constructor
      · rintro ⟨⟩
        rfl
      · rintro ⟨⟩
        rfl

theorem calls_of_ofRom {rom : List Byte} {ticks : Int} {options : Options} {keys : List Int}
    {chosenSeed : Int} {r : Run} (h : ofRom rom ticks options keys chosenSeed = .ok r) :
    ∃ m, start rom options keys chosenSeed = .ok m ∧
      let calls := m.callCycles (List.replicate ticks.toNat options.instructionsPerTick)
      r.machine = calls.machine ∧ r.ticks = calls.completed ∧ r.fault = calls.fault := by
  obtain ⟨m, hstart, rfl⟩ := ofRom_eq_ok_iff.1 h
  obtain ⟨hmachine, hticks, hfault⟩ := onward_eq_calls options ticks.toNat 0 ⟨m, #[]⟩
  exact ⟨m, hstart, hmachine, hticks.trans (Nat.zero_add _), hfault⟩

theorem ofRom_of_fits {rom : List Byte} (hrom : rom.length ≤ romCapacity) (ticks : Int)
    {options : Options} {seed : Int} (hseed : options.seed = some seed) (keys : List Int)
    (chosenSeed : Int) :
    ofRom rom ticks options keys chosenSeed =
      .ok (onward options ticks.toNat 0
        ⟨(Machine.withRom rom (.seeded seed)).setKeys keys, #[]⟩) := by
  rw [ofRom, start, Machine.load_of_fits hrom, Options.seedOr, hseed]
  rfl

theorem status_eq_ok_iff (r : Run) : r.status = "ok" ↔ r.fault = none := by
  rw [status]
  cases r.fault with
  | none => simp
  | some f => simp

theorem status_eq_error_iff (r : Run) : r.status = "error" ↔ r.fault ≠ none := by
  rw [status]
  cases r.fault with
  | none => simp
  | some f => simp

/-- A run ends as a host ends that loads the ROM with the run's seed, holds the keys and calls
`cycle` for each tick until a call faults: in the same machine, after as many completed ticks, and
with the same fault, which the run reports in the tick it cut short.  This holds for all options
with the same batch and seed, recording or not. -/
theorem ofRom_eq_calls {rom : List Byte} (hrom : rom.length ≤ romCapacity) (ticks : Int)
    (keys : List Int) (batch seed : Int) :
    ∃ m, Machine.load rom (.seeded seed) = .ok m ∧
      ∀ (options : Options) (chosenSeed : Int),
        options.instructionsPerTick = batch → options.seed = some seed →
        ∃ r, ofRom rom ticks options keys chosenSeed = .ok r ∧
          let calls := (m.setKeys keys).callCycles (List.replicate ticks.toNat batch)
          (r.status = "ok" ↔ calls.fault = none) ∧ (r.status = "error" ↔ calls.fault ≠ none) ∧
            r.ticks = calls.completed ∧ r.machine = calls.machine ∧
            r.report = calls.fault.map (fun f => { f.report 0 with tick := calls.completed }) ∧
            (calls.fault = none → calls.completed = ticks.toNat) ∧
            (calls.fault ≠ none → calls.completed < ticks.toNat) := by
  refine ⟨_, Machine.load_of_fits hrom _, ?_⟩
  rintro options chosenSeed rfl hseed
  refine ⟨_, ofRom_of_fits hrom ticks hseed keys chosenSeed, ?_⟩
  obtain ⟨hmachine, hticks, hfault⟩ := onward_eq_calls options ticks.toNat 0
    ⟨(Machine.withRom rom (.seeded seed)).setKeys keys, #[]⟩
  have hcompleted := Machine.callCycles_completed
    (List.replicate ticks.toNat options.instructionsPerTick)
    ((Machine.withRom rom (.seeded seed)).setKeys keys)
  rw [List.length_replicate] at hcompleted
  rw [Nat.zero_add] at hticks
  intro calls
  refine ⟨?_, ?_, hticks, hmachine, ?_, hcompleted⟩
  · rw [status_eq_ok_iff, hfault]
  · rw [status_eq_error_iff, hfault]
  · rw [report, hfault, hticks]
    rfl

/-- Two ticks of two instructions each; the last word is unassigned. -/
def faultyRom : List Byte := [0x60, 0x05, 0x61, 0x06, 0x62, 0x07, 0x00, 0x01]

/-- The ROM, with bytes behind it that no instruction comes to, ready to run. -/
def faultyStartWith (rest : List Byte) (source : RandomSource) (keys : List Int) : Machine :=
  (Machine.withRom (faultyRom ++ rest) source).setKeys keys

def faultyStart : Machine := (Machine.withRom faultyRom (.seeded 7)).setKeys [-1, 3]

/-- What can be seen of the machine that the fault leaves. -/
structure FaultyEnd (m : Machine) : Prop where
  screen : m.screen = .blank
  registers : m.registers.toList = [5, 6, 7, 0, 0, 0, 0, 0, 0, 0, 0, 0, 0, 0, 0, 0]
  pc : m.pc = 520
  index : m.index = 0
  stack : m.stack = Vector.replicate 16 0
  sp : m.sp = 0
  delay : m.delay = 0
  sound : m.sound = 0

theorem pc_fetched {m : Machine} {k : Nat} (hpc : m.pc = romStart + k) (hk : k ≤ 8) :
    m.fetched.pc = romStart + (k + 2 : Nat) := by
  show (m.pc + 2) % 4096 = _
  rw [hpc, romStart]
  omega

section

variable {rest : List Byte} (hrom : (faultyRom ++ rest).length ≤ romCapacity)
include hrom

theorem word_faultyRom {m : Machine} {source : RandomSource}
    (hmemory : m.memory = (Machine.withRom (faultyRom ++ rest) source).memory) {k : Nat}
    (hpc : m.pc = romStart + k) (hk : k + 1 < faultyRom.length) {w : Word}
    (hw : Word.ofBytes faultyRom[k] faultyRom[k + 1] = w) : m.word = w := by
  have hlength : faultyRom.length ≤ (faultyRom ++ rest).length :=
    List.length_append ▸ Nat.le_add_right _ _
  refine Machine.word_withRom hmemory hrom hpc (Nat.lt_of_lt_of_le hk hlength) ?_
  rw [List.getElem_append_left hk, List.getElem_append_left (Nat.lt_of_succ_lt hk), hw]

variable (source : RandomSource) (keys : List Int)

theorem faultyStartWith_steps :
    let start := faultyStartWith rest source keys
    ∃ m₁ m₂ m₃ left, (start.step = .ok m₁ ∧ m₁.step = .ok m₂ ∧ m₂.decay.step = .ok m₃ ∧
      m₃.step = .error ⟨⟨0x0001, 518⟩, left⟩) ∧
      (start.cycle 2 = .ok m₂.decay ∧ m₂.decay.cycle 2 = .error ⟨⟨0x0001, 518⟩, left⟩) ∧
      (start.pc = 512 ∧ start.word = 0x6005) ∧ (m₁.pc = 514 ∧ m₁.word = 0x6106) ∧
      (m₂.decay.pc = 516 ∧ m₂.decay.word = 0x6207) ∧ FaultyEnd left := by
  intro start
  have hmemory : start.memory = (Machine.withRom (faultyRom ++ rest) source).memory := by
    simp only [start, faultyStartWith, Machine.setKeys]
  have hregisters : start.registers = Vector.replicate 16 0 := rfl
  have hscreen : start.screen = .blank := rfl
  have hindex : start.index = 0 := rfl
  have hstack : start.stack = Vector.replicate 16 0 := rfl
  have hsp : start.sp = 0 := rfl
  have hdelay : start.delay = 0 := rfl
  have hsound : start.sound = 0 := rfl
  have p₀ : start.pc = romStart + (0 : Nat) := rfl
  clear_value start
  let m₁ := start.fetched.apply (.put 0 0x05)
  let m₂ := m₁.fetched.apply (.put 1 0x06)
  let m₃ := m₂.decay.fetched.apply (.put 2 0x07)
  have p₁ : m₁.pc = romStart + (2 : Nat) := pc_fetched p₀ (by decide)
  have p₂ : m₂.decay.pc = romStart + (4 : Nat) := pc_fetched p₁ (by decide)
  have p₃ : m₃.pc = romStart + (6 : Nat) := pc_fetched p₂ (by decide)
  have e₁ : m₁.memory = start.memory := rfl
  have e₂ : m₂.decay.memory = start.memory := rfl
  have e₃ : m₃.memory = start.memory := rfl
  have b₀ : Word.ofBytes faultyRom[0] faultyRom[1] = 0x6005 := by decide
  have b₁ : Word.ofBytes faultyRom[2] faultyRom[3] = 0x6106 := by decide
  have b₂ : Word.ofBytes faultyRom[4] faultyRom[5] = 0x6207 := by decide
  have b₃ : Word.ofBytes faultyRom[6] faultyRom[7] = 0x0001 := by decide
  have w₀ : start.word = 0x6005 := word_faultyRom hrom hmemory p₀ (by decide) b₀
  have w₁ : m₁.word = 0x6106 := word_faultyRom hrom (e₁.trans hmemory) p₁ (by decide) b₁
  have w₂ : m₂.decay.word = 0x6207 := word_faultyRom hrom (e₂.trans hmemory) p₂ (by decide) b₂
  have w₃ : m₃.word = 0x0001 := word_faultyRom hrom (e₃.trans hmemory) p₃ (by decide) b₃
  have h₀ : start.step = .ok m₁ := Machine.step_of_decode w₀ rfl
  have h₁ : m₁.step = .ok m₂ := Machine.step_of_decode w₁ rfl
  have h₂ : m₂.decay.step = .ok m₃ := Machine.step_of_decode w₂ rfl
  have p₄ : m₃.fetched.pc = romStart + (8 : Nat) := pc_fetched p₃ (by decide)
  have hfault : m₃.fetched.faultAt 0x0001 = ⟨0x0001, 518⟩ := by
    rw [Machine.faultAt, p₄]
    rfl
  have h₃ : m₃.step = .error ⟨⟨0x0001, 518⟩, m₃.fetched⟩ :=
    hfault ▸ Machine.step_of_unassigned w₃ rfl
  have hfirst : start.cycle 2 = .ok m₂.decay :=
    Machine.cycle_of_steps ((Machine.steps_succ_of_ok h₀ 1).trans (Machine.steps_succ_of_ok h₁ 0))
  have hsecond : m₂.decay.cycle 2 = .error ⟨⟨0x0001, 518⟩, m₃.fetched⟩ :=
    Machine.cycle_of_halted
      ((Machine.steps_succ_of_ok h₂ 1).trans (Machine.steps_succ_of_error h₃ 0))
  have hend : FaultyEnd m₃.fetched :=
    { screen := hscreen
      registers := by
        show (((start.registers.set 0 0x05).set 1 0x06).set 2 0x07).toList = _
        rw [hregisters]
        rfl
      pc := p₄
      index := hindex
      stack := hstack
      sp := hsp
      delay := by
        show Machine.countDown start.delay = 0
        rw [hdelay]
        rfl
      sound := by
        show Machine.countDown start.sound = 0
        rw [hsound]
        rfl }
  exact ⟨m₁, m₂, m₃, m₃.fetched, ⟨h₀, h₁, h₂, h₃⟩, ⟨hfirst, hsecond⟩, ⟨p₀, w₀⟩, ⟨p₁, w₁⟩,
    ⟨p₂, w₂⟩, hend⟩

theorem faultyStartWith_calls :
    ∃ left, FaultyEnd left ∧
      (faultyStartWith rest source keys).callCycles [2, 2, 2] = ⟨left, 1, some ⟨0x0001, 518⟩⟩ := by
  obtain ⟨m₁, m₂, m₃, left, -, ⟨hfirst, hsecond⟩, -, -, -, hend⟩ :=
    faultyStartWith_steps hrom source keys
  rw [Machine.callCycles_cons_ok hfirst, Machine.callCycles_cons_error hsecond]
  exact ⟨left, hend, rfl⟩

end

theorem length_faultyRom_le : (faultyRom ++ []).length ≤ romCapacity := by decide

theorem faultyStart_eq : faultyStart = faultyStartWith [] (.seeded 7) [-1, 3] := by
  rw [faultyStartWith, List.append_nil]
  rfl

theorem faultyStart_steps :
    ∃ m₁ m₂ m₃ left, (faultyStart.step = .ok m₁ ∧ m₁.step = .ok m₂ ∧ m₂.decay.step = .ok m₃ ∧
      m₃.step = .error ⟨⟨0x0001, 518⟩, left⟩) ∧
      (faultyStart.cycle 2 = .ok m₂.decay ∧
        m₂.decay.cycle 2 = .error ⟨⟨0x0001, 518⟩, left⟩) ∧
      (faultyStart.pc = 512 ∧ faultyStart.word = 0x6005) ∧ (m₁.pc = 514 ∧ m₁.word = 0x6106) ∧
      (m₂.decay.pc = 516 ∧ m₂.decay.word = 0x6207) := by
  obtain ⟨m₁, m₂, m₃, left, hsteps, hcycles, e₀, e₁, e₂, -⟩ :=
    faultyStartWith_steps length_faultyRom_le (.seeded 7) [-1, 3]
  rw [← faultyStart_eq] at hsteps hcycles e₀
  exact ⟨m₁, m₂, m₃, left, hsteps, hcycles, e₀, e₁, e₂⟩

theorem faultyStart_calls :
    ∃ left, faultyStart.callCycles [2, 2, 2] = ⟨left, 1, some ⟨0x0001, 518⟩⟩ := by
  obtain ⟨left, -, hcalls⟩ := faultyStartWith_calls length_faultyRom_le (.seeded 7) [-1, 3]
  exact ⟨left, faultyStart_eq ▸ hcalls⟩

/-- The second of three ticks faults behind its first instruction, recorded or not. -/
theorem ofRom_eq_calls_mid_tick :
    faultyRom.length ≤ romCapacity ∧
      ∀ options ∈ [{ instructionsPerTick := 2, seed := some 7, trace := true, traceLimit := 1 },
          { instructionsPerTick := 2, seed := some 7 : Options }],
        options.instructionsPerTick = 2 ∧ options.seed = some 7 ∧
          ∃ r, ofRom faultyRom 3 options [-1, 3] 0 = .ok r ∧ r.status = "error" ∧ r.ticks = 1 ∧
            r.report = some (.invalidOpcode 0x0001 518 1) := by
  have hrom : faultyRom.length ≤ romCapacity := by decide
  obtain ⟨m, hload, hruns⟩ := ofRom_eq_calls hrom 3 [-1, 3] 2 7
  have hm : m = Machine.withRom faultyRom (.seeded 7) := by
    rw [Machine.load_of_fits hrom] at hload
    cases hload
    rfl
  obtain ⟨left, hcalls⟩ := faultyStart_calls
  refine ⟨hrom, fun options hoptions => ?_⟩
  have hfields : options.instructionsPerTick = 2 ∧ options.seed = some 7 := by
    simp only [List.mem_cons, List.not_mem_nil, or_false] at hoptions
    rcases hoptions with rfl | rfl
    · exact ⟨rfl, rfl⟩
    · exact ⟨rfl, rfl⟩
  obtain ⟨r, hrun, -, hstatus, hticks, -, hreport, -⟩ := hruns options 0 hfields.1 hfields.2
  rw [hm, show List.replicate (3 : Int).toNat (2 : Int) = [2, 2, 2] from rfl,
    show (Machine.withRom faultyRom (.seeded 7)).setKeys [-1, 3] = faultyStart from rfl, hcalls]
    at hstatus hticks hreport
  exact ⟨hfields.1, hfields.2, r, hrun, hstatus.2 nofun, hticks, hreport⟩

end Run

end ChipEight
