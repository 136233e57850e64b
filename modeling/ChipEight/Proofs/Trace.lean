/-
# `ChipEight.Proofs.Trace` — the trace of a run is the beginning of its execution

A recorded run keeps an entry for each instruction that completes, as long as there is
room.  The address is read before the step, the entry is made after it, and room is
looked for at every entry, in the middle of a tick as well as between ticks.

**Proved here**, where the execution is the list of all the entries, without a limit:

    an entry is kept if there is room for it         (`toList_record`)
    so the trace stays the beginning of the
    execution, through steps, ticks and runs         (`trace_steps`, `trace_tick`, `trace_onward`)
    nothing else depends on trace and limit          (`ofRom_alike`)
    the trace of a run is the beginning of its
    execution                                        (`trace_eq_take`)
-/
import ChipEight.Proofs.Executed

namespace ChipEight

namespace Observed

/-- What an observed computation leaves, also if it faults. -/
def leftBy : Except (Fault × Observed) Observed → Observed
  | .ok o => o
  | .error (_, o) => o

theorem toList_record {room : Nat} {trace : Array Entry} {execution : List Entry}
    (h : trace.toList = execution.take room) (entry : Entry) :
    (record room trace entry).toList = (execution ++ [entry]).take room := by
  have hsize : trace.size = min room execution.length := by
    rw [← Array.length_toList, h, List.length_take]
  rw [record]
  split
  · next hroom =>
      have hshort : execution.length < room := by omega
      rw [Array.toList_push, h, List.take_of_length_le (Nat.le_of_lt hshort),
        List.take_of_length_le (by rw [List.length_append]; exact hshort)]
  · next hfull =>
      have hlong : room ≤ execution.length := by omega
      rw [h, List.take_append_of_le_length hlong]

/-- By induction on the steps: the one at hand adds its entry to the execution so far. -/
theorem trace_steps (room n : Nat) : ∀ {execution : List Entry} {o : Observed},
    o.trace.toList = execution.take room →
    (leftBy (o.steps room n)).trace.toList =
      (execution ++ o.machine.executed n).take room := by
  induction n with
  | zero =>
      intro execution o h
      rw [Machine.executed, List.append_nil]
      exact h
  | succ n ih =>
      intro execution o h
      rw [steps, step]
      cases hstep : o.machine.step with
      | ok next =>
          rw [Machine.executed_succ_of_ok hstep, List.append_cons]
          exact ih (toList_record h _)
      | error halt =>
          rw [Machine.executed_succ_of_error hstep, List.append_nil]
          exact h

theorem trace_tick {room : Nat} {execution : List Entry} {o : Observed}
    (h : o.trace.toList = execution.take room) (batch : Nat) :
    (leftBy (o.tick room batch)).trace.toList =
      (execution ++ o.machine.executed batch).take room := by
  rw [← trace_steps room batch h, tick]
  cases o.steps room batch <;> rfl

theorem trace_cycle (o : Observed) (batch : Int) : (leftBy (o.cycle batch)).trace = o.trace := by
  rw [cycle]
  cases o.machine.cycle batch <;> rfl

end Observed

namespace Run

/-! ## Runs with and without a trace -/

/-- By induction on the ticks: each adds what it executes, the one that faults included. -/
theorem trace_onward {options : Options} (hon : options.trace = true) (n : Nat) :
    ∀ {execution : List Entry} {done : Nat} {o : Observed},
    o.trace.toList = execution.take options.traceLimit.toNat →
    (onward options n done o).trace.toList =
      (execution ++ o.machine.executedIn (List.replicate n options.instructionsPerTick)).take
        options.traceLimit.toNat := by
  induction n with
  | zero =>
      intro execution done o h
      rw [List.replicate_zero, Machine.executedIn, List.append_nil]
      exact h
  | succ n ih =>
      intro execution done o h
      have htrace := Observed.trace_tick h options.instructionsPerTick.toNat
      have hmachine := unobserved_tick options o
      rw [tick, if_pos hon] at hmachine
      rw [onward, tick, if_pos hon, List.replicate_succ]
      cases hnext : o.tick options.traceLimit.toNat options.instructionsPerTick.toNat with
      | ok next =>
          rw [hnext] at htrace hmachine
          rw [Machine.executedIn_cons_of_ok hmachine.symm, ← List.append_assoc]
          exact ih htrace
      | error stop =>
          rw [hnext] at htrace hmachine
          rw [Machine.executedIn_cons_of_error hmachine.symm]
          exact htrace

theorem trace_onward_off {options : Options} (hoff : options.trace = false) (n : Nat) :
    ∀ (done : Nat) (o : Observed), (onward options n done o).trace = o.trace := by
  induction n with
  | zero => exact fun _ _ => rfl
  | succ n ih =>
      intro done o
      have htrace := o.trace_cycle options.instructionsPerTick
      rw [onward, tick, if_neg (by rw [hoff]; exact Bool.false_ne_true)]
      cases hnext : o.cycle options.instructionsPerTick with
      | ok next =>
          rw [hnext] at htrace
          exact (ih _ next).trans htrace
      | error stop =>
          rw [hnext] at htrace
          exact htrace

theorem trace_of_start (options : Options) (m : Machine) (n : Nat) :
    (onward options n 0 ⟨m, #[]⟩).trace.toList =
      if options.trace then
        (m.executedIn (List.replicate n options.instructionsPerTick)).take options.traceLimit.toNat
      else [] := by
  cases hon : options.trace with
  | true =>
      have hempty : (⟨m, #[]⟩ : Observed).trace.toList = [].take options.traceLimit.toNat :=
        List.take_nil.symm
      exact trace_onward hon n hempty
  | false => exact congrArg Array.toList (trace_onward_off hon n 0 ⟨m, #[]⟩)

theorem size_trace_le (options : Options) (m : Machine) (n : Nat) :
    (onward options n 0 ⟨m, #[]⟩).trace.size ≤ options.traceLimit.toNat := by
  rw [← Array.length_toList, trace_of_start]
  split
  · exact List.length_take_le _ _
  · exact Nat.zero_le _

/-- Of the options a run depends on the size of its ticks and on the seed, but for its trace. -/
theorem ofRom_alike {rom : List Byte} {ticks : Int} {options : Options} {keys : List Int}
    {chosenSeed : Int} {r : Run} (hrun : ofRom rom ticks options keys chosenSeed = .ok r)
    (others : Options) (hbatch : others.instructionsPerTick = options.instructionsPerTick)
    (hseed : others.seed = options.seed) :
    ∃ r', ofRom rom ticks others keys chosenSeed = .ok r' ∧ r'.machine = r.machine ∧
      r'.ticks = r.ticks ∧ r'.fault = r.fault := by
  obtain ⟨m, hstart, hmachine, hticks, hfault⟩ := calls_of_ofRom hrun
  have hstart' : start rom others keys chosenSeed = .ok m := by
    rw [← hstart, start, start, Options.seedOr, Options.seedOr, hseed]
  obtain ⟨r', hrun'⟩ : ∃ r', ofRom rom ticks others keys chosenSeed = .ok r' :=
    ⟨_, ofRom_eq_ok_iff.2 ⟨m, hstart', rfl⟩⟩
  obtain ⟨m', hm', hmachine', hticks', hfault'⟩ := calls_of_ofRom hrun'
  obtain rfl : m' = m := Except.ok.inj (hm'.symm.trans hstart')
  rw [hbatch, ← hmachine] at hmachine'
  rw [hbatch, ← hticks] at hticks'
  rw [hbatch, ← hfault] at hfault'
  exact ⟨r', hrun', hmachine', hticks', hfault'⟩

theorem ofRom_congr {rom : List Byte} {ticks : Int} {options others : Options} {keys : List Int}
    {chosenSeed : Int} {r : Run} (hrun : ofRom rom ticks options keys chosenSeed = .ok r)
    (hbatch : others.instructionsPerTick = options.instructionsPerTick)
    (hseed : others.seed = options.seed) :
    ∃ r', ofRom rom ticks others keys chosenSeed = .ok r' ∧ r'.machine = r.machine ∧
      r'.ticks = r.ticks ∧ r'.status = r.status ∧ r'.report = r.report := by
  obtain ⟨r', hrun', hmachine, hticks, hfault⟩ := ofRom_alike hrun others hbatch hseed
  refine ⟨r', hrun', hmachine, hticks, ?_, ?_⟩
  · rw [status, status, hfault]
  · rw [report, report, hfault, hticks]

/-- A run of a ROM that loads has recorded the first entries of its execution, as many as there was
room for, and without a trace none; the word at fault is in none of them.  The execution has all the
instructions of the ticks that were completed, and those before the fault in the tick that was not.
Another run of the ROM that differs in its trace and its limit ends in the same way. -/
theorem trace_eq_take {rom : List Byte} {options : Options} {keys : List Int} {chosenSeed : Int}
    {m : Machine} (hstart : start rom options keys chosenSeed = .ok m) (ticks : Int) :
    let batch := options.instructionsPerTick
    let execution := m.executedIn (List.replicate ticks.toNat batch)
    ∃ r, ofRom rom ticks options keys chosenSeed = .ok r ∧
      r.trace.toList = (if options.trace then execution.take options.traceLimit.toNat else []) ∧
      (∀ f, r.fault = some f → ∀ e ∈ execution, e.word ≠ f.word) ∧
      (r.status = "ok" → execution.length = r.ticks * batch.toNat) ∧
      (r.status = "error" → ∃ f before last j, r.fault = some f ∧
        m.callCycles (List.replicate r.ticks batch) = ⟨before, r.ticks, none⟩ ∧
        execution.length = r.ticks * batch.toNat + j ∧ (j : Int) < batch ∧
        before.steps j = .ok last ∧ last.step = .error ⟨f, r.machine⟩) ∧
      ∀ others : Options, others.instructionsPerTick = batch → others.seed = options.seed →
        ∃ r', ofRom rom ticks others keys chosenSeed = .ok r' ∧ r'.machine = r.machine ∧
          r'.ticks = r.ticks ∧ r'.status = r.status ∧ r'.report = r.report := by
  intro batch execution
  let r := onward options ticks.toNat 0 ⟨m, #[]⟩
  have hrun : ofRom rom ticks options keys chosenSeed = .ok r :=
    ofRom_eq_ok_iff.2 ⟨m, hstart, rfl⟩
  obtain ⟨m', hm', hmachine, hticks, hfault⟩ := calls_of_ofRom hrun
  obtain rfl : m' = m := Except.ok.inj (hm'.symm.trans hstart)
  refine ⟨r, hrun, trace_of_start options m' ticks.toNat, ?_, ?_, ?_, fun _ => ofRom_congr hrun⟩
  · intro f hf e he heq
    obtain ⟨-, last, -, -, -, -, -, hlast⟩ :=
      Machine.callCycles_replicate_fault (hfault.symm.trans hf)
    obtain ⟨hdecode, hhalt⟩ := Machine.step_eq_error_iff.1 hlast
    have hword : f.word = last.word := congrArg (fun halt => halt.fault.word) hhalt
    exact Machine.decode_of_mem_executedIn _ he (by rw [heq, hword, hdecode])
  · intro hok
    have hnone := hfault.symm.trans ((status_eq_ok_iff r).1 hok)
    have hall := (Machine.callCycles_completed _ m').1 hnone
    rw [List.length_replicate] at hall
    rw [Machine.length_executedIn _ hnone, hticks, hall]
  · intro herror
    obtain ⟨f, hf⟩ := Option.ne_none_iff_exists'.1 ((status_eq_error_iff r).1 herror)
    obtain ⟨before, last, j, hdone, hlength, hj, hsteps, hlast⟩ :=
      Machine.callCycles_replicate_fault (hfault.symm.trans hf)
    rw [← hticks] at hdone hlength
    rw [← hmachine] at hlast
    exact ⟨f, before, last, j, hf, hdone, hlength, hj, hsteps, hlast⟩

/-- The run of the faulty ROM, whatever lies behind it, and whatever the seed and the keys. -/
theorem ofRom_faultyRom {rest : List Byte} (hrom : (faultyRom ++ rest).length ≤ romCapacity)
    {options : Options} (hbatch : options.instructionsPerTick = 2) (hon : options.trace = true)
    (hlimit : options.traceLimit = 10000) (keys : List Int) (chosenSeed : Int) :
    ∃ r, ofRom (faultyRom ++ rest) 3 options keys chosenSeed = .ok r ∧ FaultyEnd r.machine ∧
      r.ticks = 1 ∧ r.fault = some ⟨0x0001, 518⟩ ∧
      r.trace.toList = [⟨512, 0x6005⟩, ⟨514, 0x6106⟩, ⟨516, 0x6207⟩] := by
  let source := RandomSource.seeded (options.seedOr chosenSeed)
  let m := faultyStartWith rest source keys
  have hstart : start (faultyRom ++ rest) options keys chosenSeed = .ok m := by
    rw [start, Machine.load_of_fits hrom]
    rfl
  have hbatches : List.replicate (3 : Int).toNat options.instructionsPerTick = [2, 2, 2] := by
    rw [hbatch]
    rfl
  obtain ⟨left, hend, hcalls⟩ := faultyStartWith_calls hrom source keys
  obtain ⟨hmachine, hticks, hfault⟩ := onward_eq_calls options (3 : Int).toNat 0 ⟨m, #[]⟩
  rw [hbatches, hcalls] at hmachine hticks hfault
  have htrace := trace_of_start options m (3 : Int).toNat
  rw [hbatches, Machine.executedIn_faultyStartWith hrom source keys, if_pos hon, hlimit] at htrace
  exact ⟨_, ofRom_eq_ok_iff.2 ⟨m, hstart, rfl⟩, hmachine ▸ hend, hticks, hfault, htrace⟩

/-- Room for one entry, where three instructions complete before the fault in the second tick. -/
theorem trace_eq_take_of_full :
    let options : Options :=
      { instructionsPerTick := 2, seed := some 7, trace := true, traceLimit := 1 }
    start faultyRom options [-1, 3] 0 = .ok faultyStart ∧
      faultyStart.executedIn [2, 2, 2] = [⟨512, 0x6005⟩, ⟨514, 0x6106⟩, ⟨516, 0x6207⟩] ∧
      ∃ r, ofRom faultyRom 3 options [-1, 3] 0 = .ok r ∧ r.trace.toList = [⟨512, 0x6005⟩] ∧
        ∃ r', ofRom faultyRom 3 { options with trace := false } [-1, 3] 0 = .ok r' ∧
          r'.ticks = r.ticks ∧ r'.report = r.report := by
  intro options
  have hrom : faultyRom.length ≤ romCapacity := by decide
  have hstart : start faultyRom options [-1, 3] 0 = .ok faultyStart := by
    rw [start, Machine.load_of_fits hrom]
    rfl
  have hexecution : faultyStart.executedIn [2, 2, 2] =
      [⟨512, 0x6005⟩, ⟨514, 0x6106⟩, ⟨516, 0x6207⟩] := by
    rw [faultyStart_eq]
    exact Machine.executedIn_faultyStartWith length_faultyRom_le _ _
  obtain ⟨r, hrun, htrace, -, -, -, hothers⟩ := trace_eq_take hstart 3
  obtain ⟨r', hrun', -, hticks, -, hreport⟩ := hothers { options with trace := false } rfl rfl
  refine ⟨hstart, hexecution, r, hrun, ?_, r', hrun', hticks, hreport⟩
  rw [htrace, show List.replicate (3 : Int).toNat options.instructionsPerTick = [2, 2, 2] from rfl,
    hexecution]
  rfl

end Run

end ChipEight
