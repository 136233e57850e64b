/-
# `ChipEight.Proofs.FaultReport` — where a fault happened

Nobody notes the address of a word when it is fetched.  A fault takes it from the
program counter, which has moved on by then, and the tick is added by the run that the
fault ends.  Here both are read back off the machine that the fault leaves: the word at
the reported address is still there, and the program counter is one word behind it.

**Proved here.**

    a step that faults has fetched its word and done nothing else         (`fault_of_step`)
    a cycle that faults has completed fewer steps than it was to have,
    and then such a step                                                  (`fault_of_cycle`)
    the report of a run names the word, its address and its tick; a run
    without one has executed only words that have an instruction          (`report_locates_fault`)
-/
import ChipEight.Proofs.Executed
import ChipEight.Proofs.Faults

namespace ChipEight

namespace Machine

theorem fault_of_step {m : Machine} {halt : Halt} (h : m.step = .error halt) :
    halt.machine = { m with pc := (m.pc + 2) % 4096 } ∧ halt.fault.word = m.word ∧
      (halt.fault.address.val : Int) = m.pc % 4096 ∧ m.word.decode = none := by
  obtain ⟨hdecode, rfl⟩ := step_eq_error_iff.1 h
  refine ⟨rfl, rfl, ?_, hdecode⟩
  have haddress : ((residue 4096 (m.fetched.pc - 2)).val : Int) = (m.fetched.pc - 2) % 4096 :=
    residue_val 4096 _
  have hpc : m.fetched.pc = (m.pc + 2) % 4096 := rfl
  show ((residue 4096 (m.fetched.pc - 2)).val : Int) = m.pc % 4096
  omega

/-- The timers are among what is left as the completed steps left it. -/
theorem fault_of_cycle {m : Machine} {n : Int} {halt : Halt} (h : m.cycle n = .error halt) :
    ∃ (k : Nat) (last : Machine), (k : Int) < n ∧ m.steps k = .ok last ∧
      last.step = .error halt ∧ halt.machine = { last with pc := (last.pc + 2) % 4096 } := by
  obtain ⟨hlt, last, hsteps, hlast⟩ := step_of_halted _ (cycle_eq_error_iff.1 h)
  exact ⟨_, last, by omega, hsteps, hlast, (fault_of_step hlast).1⟩

/-- The word of a fault is found at its address in the machine that it leaves. -/
theorem read_at_fault {m : Machine} {halt : Halt} (h : m.step = .error halt) :
    let address : Int := halt.fault.address.val
    halt.fault.word.toNat = 256 * (halt.machine.memory.read address).toNat +
        (halt.machine.memory.read (address + 1)).toNat ∧
      halt.machine.pc = (address + 2) % 4096 := by
  obtain ⟨hmachine, hword, haddress, -⟩ := fault_of_step h
  have hhigh : m.memory.read (halt.fault.address.val : Int) = m.memory.read m.pc :=
    m.memory.read_congr (by omega)
  have hlow : m.memory.read ((halt.fault.address.val : Int) + 1) = m.memory.read (m.pc + 1) :=
    m.memory.read_congr (by omega)
  intro address
  rw [hmachine, hword]
  refine ⟨?_, ?_⟩
  · show m.word.toNat = 256 * (m.memory.read address).toNat + (m.memory.read (address + 1)).toNat
    rw [hhigh, hlow]
    exact Word.toNat_ofBytes _ _
  · show (m.pc + 2) % 4096 = (address + 2) % 4096
    omega

end Machine

namespace Plain

/-! ## Handlers of words -/

theorem resolve_of_unassigned {w : Word} (h : w.decode = none) (s : Plain) :
    (resolve w.toNat).run s = .ok unassigned s := by
  rw [run_resolve, h]
  rfl

theorem resolve_of_assigned {w : Word} (h : w.decode ≠ none) :
    ∃ handler : Handler, handler.pattern ≠ unassigned.pattern ∧
      ∀ s : Plain, (resolve w.toNat).run s = .ok handler s :=
  ⟨handlerOf w.decode, mt (pattern_handlerOf _).1 h, run_resolve w⟩

end Plain

namespace Run

open Plain (resolve unassigned Handler)

/-- A cycle that faults has completed some steps, fewer than it was to have, and fetched one more
word; nothing else has changed, and the timers have not counted down.  The report of a run names
the unassigned word, the address at which memory still holds it, with the program counter behind it,
and the tick, which is one of those that were asked for.  A run without a report has done all of
these, and every word that it executed resolves to a handler that does not report it. -/
theorem report_locates_fault :
    (∀ (m : Machine) (n : Int) (halt : Halt), m.cycle n = .error halt →
      ∃ (k : Nat) (last : Machine), (k : Int) < n ∧ m.steps k = .ok last ∧
        last.step = .error halt ∧ halt.machine = { last with pc := (last.pc + 2) % 4096 }) ∧
    ∀ (rom : List Byte) (ticks : Int) (options : Options) (keys : List Int) (chosenSeed : Int)
      (r : Run), ofRom rom ticks options keys chosenSeed = .ok r →
      (r.status = "error" → ∃ (report : Report) (op : Nat), r.report = some report ∧
        report = .invalidOpcode op report.address r.ticks ∧
        report.kind.name = "InvalidOpcode" ∧ (r.ticks : Int) < ticks ∧
        0 ≤ report.address ∧ report.address < 4096 ∧
        op = 256 * (r.machine.memory.read report.address).toNat +
          (r.machine.memory.read (report.address + 1)).toNat ∧
        (∀ s : Plain, (resolve op).run s = .ok unassigned s) ∧
        r.machine.pc = (report.address + 2) % 4096) ∧
      (r.status = "ok" → r.report = none ∧ r.ticks = ticks.toNat ∧
        ∃ m, start rom options keys chosenSeed = .ok m ∧
          let execution :=
            m.executedIn (List.replicate ticks.toNat options.instructionsPerTick)
          execution.length = r.ticks * options.instructionsPerTick.toNat ∧
          ∀ e ∈ execution, ∃ handler : Handler, handler.pattern ≠ unassigned.pattern ∧
            ∀ s : Plain, (resolve e.word.toNat).run s = .ok handler s) := by
  refine ⟨fun m n halt => Machine.fault_of_cycle, ?_⟩
  intro rom ticks options keys chosenSeed r hrun
  obtain ⟨m, hstart, hmachine, hticks, hfault⟩ := calls_of_ofRom hrun
  obtain ⟨hall, hnotall⟩ := Machine.callCycles_completed
    (List.replicate ticks.toNat options.instructionsPerTick) m
  rw [List.length_replicate, ← hfault, ← hticks] at hall hnotall
  constructor
  · intro herror
    have hsome := (status_eq_error_iff r).1 herror
    have hlt := hnotall hsome
    obtain ⟨f, hf⟩ := Option.ne_none_iff_exists'.1 hsome
    obtain ⟨-, last, -, -, -, -, -, hlast⟩ :=
      Machine.callCycles_replicate_fault (hfault.symm.trans hf)
    rw [← hmachine] at hlast
    obtain ⟨hword, hpc⟩ := Machine.read_at_fault hlast
    obtain ⟨-, hsame, -, hdecode⟩ := Machine.fault_of_step hlast
    refine ⟨f.report r.ticks, f.word.toNat, by rw [report, hf]; rfl, rfl, rfl, by omega,
      Int.natCast_nonneg _, Int.ofNat_lt.2 f.address.isLt, hword, ?_, hpc⟩
    exact Plain.resolve_of_unassigned (hsame ▸ hdecode)
  · intro hok
    have hnone := (status_eq_ok_iff r).1 hok
    refine ⟨by rw [report, hnone]; rfl, hall hnone, m, hstart, ?_, ?_⟩
    · rw [hall hnone]
      exact Machine.length_executedIn _ (hfault.symm.trans hnone)
    · intro e he
      exact Plain.resolve_of_assigned (Machine.decode_of_mem_executedIn _ he)

/-- The second of three ticks faults behind its first instruction. -/
theorem report_locates_fault_mid_tick :
    let options : Options := { instructionsPerTick := 2, seed := some 7 }
    (∃ (m : Machine) (halt : Halt), m.cycle 2 = .error halt ∧ ∃ (k : Nat) (last : Machine), k < 2 ∧
      m.steps k = .ok last ∧ halt.machine.pc = (last.pc + 2) % 4096) ∧
    ∃ r, ofRom faultyRom 3 options [-1, 3] 0 = .ok r ∧ r.status = "error" ∧
      r.report = some (.invalidOpcode 0x0001 518 1) ∧ r.ticks < 3 ∧ r.machine.pc = 520 := by
  intro options
  obtain ⟨m₁, m₂, m₃, left, -, ⟨hfirst, hsecond⟩, -⟩ := faultyStart_steps
  have hrom : faultyRom.length ≤ romCapacity := by decide
  have hstart : start faultyRom options [-1, 3] 0 = .ok faultyStart := by
    rw [start, Machine.load_of_fits hrom]
    rfl
  obtain ⟨hcycle, hruns⟩ := report_locates_fault
  refine ⟨?_, ?_⟩
  · obtain ⟨k, last, hk, hsteps, -, hleft⟩ := hcycle m₂.decay 2 _ hsecond
    exact ⟨m₂.decay, _, hsecond, k, last, by omega, hsteps, congrArg Machine.pc hleft⟩
  · obtain ⟨r, hrun⟩ : ∃ r, ofRom faultyRom 3 options [-1, 3] 0 = .ok r :=
      ⟨_, ofRom_eq_ok_iff.2 ⟨faultyStart, hstart, rfl⟩⟩
    obtain ⟨m, hm, -, hticks, hfault⟩ := calls_of_ofRom hrun
    obtain rfl : m = faultyStart := Except.ok.inj (hm.symm.trans hstart)
    obtain ⟨left', hcalls⟩ := faultyStart_calls
    have hbatches : List.replicate (3 : Int).toNat options.instructionsPerTick = [2, 2, 2] := rfl
    rw [hbatches, hcalls] at hticks hfault
    have hstatus : r.status = "error" :=
      (status_eq_error_iff r).2 (Option.ne_none_iff_exists'.2 ⟨_, hfault⟩)
    have hreport : r.report = some (.invalidOpcode 0x0001 518 1) := by
      rw [report, hfault, hticks]
      rfl
    obtain ⟨found, op, hfound, -, -, hlt, -, -, -, -, hpc⟩ :=
      (hruns faultyRom 3 options [-1, 3] 0 r hrun).1 hstatus
    obtain rfl : found = .invalidOpcode 0x0001 518 1 := Option.some.inj (hfound.symm.trans hreport)
    exact ⟨r, hrun, hstatus, hreport, by omega, hpc⟩

end Run

end ChipEight
