/-
# `ChipEight.Proofs.MoreTicks` — a longer run goes on where a shorter one ends

A run keeps three things from tick to tick: the machine, the number of ticks, and the
trace.  All three are in its result, so nothing else is needed to go on from there.  A
run that a fault has ended goes on as it is.

**Proved here.**

    a run of `a + b` ticks is one of `a` ticks that goes on for `b`     (`onward_add`)
    a trace only grows, by what there is still room for                 (`trace_onward_append`)
    so the result for more ticks comes of the one for fewer             (`ofRom_of_more_ticks`)
-/
import ChipEight.Proofs.Trace

namespace ChipEight.Run

/-- What becomes of a run in `n` more ticks. -/
def goOn (options : Options) (n : Nat) (r : Run) : Run :=
  match r.fault with
  | none => onward options n r.ticks ⟨r.machine, r.trace⟩
  | some _ => r

theorem goOn_of_ok {options : Options} {n : Nat} {r : Run} (h : r.fault = none) :
    r.goOn options n = onward options n r.ticks ⟨r.machine, r.trace⟩ := by
  rw [goOn, h]

theorem goOn_of_fault {options : Options} {n : Nat} {r : Run} (h : r.fault ≠ none) :
    r.goOn options n = r := by
  obtain ⟨f, hf⟩ := Option.ne_none_iff_exists'.1 h
  rw [goOn, hf]

theorem goOn_eq_calls {options : Options} (n : Nat) {r : Run} (h : r.fault = none) :
    let calls := r.machine.callCycles (List.replicate n options.instructionsPerTick)
    (r.goOn options n).machine = calls.machine ∧
      (r.goOn options n).ticks = r.ticks + calls.completed ∧
      (r.goOn options n).fault = calls.fault := by
  rw [goOn_of_ok h]
  exact onward_eq_calls options n r.ticks ⟨r.machine, r.trace⟩

theorem onward_add (options : Options) (a b : Nat) : ∀ (done : Nat) (o : Observed),
    onward options (a + b) done o = (onward options a done o).goOn options b := by
  induction a with
  | zero =>
      intro done o
      rw [Nat.zero_add]
      rfl
  | succ a ih =>
      intro done o
      rw [Nat.succ_add, onward, onward]
      cases tick options o with
      | ok next => exact ih (done + 1) next
      | error stop => rfl

theorem ticks_onward_of_ok {options : Options} {n : Nat} {o : Observed}
    (h : (onward options n 0 o).fault = none) : (onward options n 0 o).ticks = n := by
  obtain ⟨-, hticks, hfault⟩ := onward_eq_calls options n 0 o
  have hall := Machine.fault_eq_none_iff.1 (hfault.symm.trans h)
  rw [hticks, hall, List.length_replicate, Nat.zero_add]

/-! ## The trace -/

/-- While there is room, what is executed is recorded behind what has been. -/
theorem trace_onward_append (options : Options) (n done : Nat) {o : Observed}
    (hroom : o.trace.size ≤ options.traceLimit.toNat) :
    (onward options n done o).trace.toList =
      o.trace.toList ++
        if options.trace then
          (o.machine.executedIn (List.replicate n options.instructionsPerTick)).take
            (options.traceLimit.toNat - o.trace.size)
        else [] := by
  cases hon : options.trace with
  | true =>
      have hwhole : o.trace.toList = o.trace.toList.take options.traceLimit.toNat :=
        (List.take_of_length_le hroom).symm
      rw [trace_onward hon n hwhole, List.take_append, ← hwhole]
      rfl
  | false =>
      rw [trace_onward_off hon n done o]
      exact (List.append_nil _).symm

theorem prefix_goOn {options : Options} (n : Nat) {r : Run}
    (hroom : r.trace.size ≤ options.traceLimit.toNat) :
    r.trace.toList <+: (r.goOn options n).trace.toList := by
  rw [goOn]
  split
  · rw [trace_onward_append options n r.ticks hroom]
    exact List.prefix_append _ _
  · exact List.prefix_refl _

/-- A ROM that loads is run twice from one seed, with the same options and keys, the second time for
as many ticks or more; without ticks to run, a run has done none.  If the shorter run ends in error,
the longer has the same result.  If not, it is the shorter run continued: a host that goes on from
its machine, with one cycle for each tick that is left, gets the machine and the fault of the longer
run, whose ticks count on from those before, in the report as well.  In its trace the longer run
has that of the shorter one first, and behind it, as far as there is room, what is executed next. -/
theorem ofRom_of_more_ticks {rom : List Byte} (hrom : rom.length ≤ romCapacity) {options : Options}
    {seed : Int} (hseed : options.seed = some seed) (keys : List Int) (chosen chosen' : Int)
    {ticks ticks' : Int} (hticks : ticks ≤ ticks') :
    ∃ r r', ofRom rom ticks options keys chosen = .ok r ∧
      ofRom rom ticks' options keys chosen' = .ok r' ∧
      (r.status = "error" → r' = r) ∧
      (r.status = "ok" →
        let batches := List.replicate (ticks'.toNat - ticks.toNat) options.instructionsPerTick
        let calls := r.machine.callCycles batches
        r'.machine = calls.machine ∧ r.ticks = ticks.toNat ∧
          r'.ticks = ticks.toNat + calls.completed ∧
          (r'.status = "ok" ↔ calls.fault = none) ∧ (r'.status = "error" ↔ calls.fault ≠ none) ∧
          r'.report = calls.fault.map (fun f => f.report (ticks.toNat + calls.completed)) ∧
          r'.trace.toList = r.trace.toList ++
            if options.trace then
              (r.machine.executedIn batches).take (options.traceLimit.toNat - r.trace.size)
            else []) ∧
      r.trace.toList <+: r'.trace.toList := by
  let m := (Machine.withRom rom (.seeded seed)).setKeys keys
  let r := onward options ticks.toNat 0 ⟨m, #[]⟩
  let more := ticks'.toNat - ticks.toNat
  have hsplit : ticks'.toNat = ticks.toNat + more := by omega
  have hrun' : ofRom rom ticks' options keys chosen' = .ok (r.goOn options more) := by
    rw [ofRom_of_fits hrom ticks' hseed keys chosen', hsplit, onward_add]
  refine ⟨r, r.goOn options more, ofRom_of_fits hrom ticks hseed keys chosen, hrun', ?_, ?_, ?_⟩
  · intro herror
    exact goOn_of_fault ((status_eq_error_iff r).1 herror)
  · intro hok batches calls
    have hnone : r.fault = none := (status_eq_ok_iff r).1 hok
    have hdone : r.ticks = ticks.toNat := ticks_onward_of_ok hnone
    obtain ⟨hmachine, hcount, hfault⟩ := goOn_eq_calls more hnone
    rw [hdone] at hcount
    refine ⟨hmachine, hdone, hcount, ?_, ?_, ?_, ?_⟩
    · rw [status_eq_ok_iff, hfault]
    · rw [status_eq_error_iff, hfault]
    · rw [report, hfault, hcount]
    · rw [goOn_of_ok hnone]
      exact trace_onward_append options more r.ticks (size_trace_le options m ticks.toNat)
  · exact prefix_goOn more (size_trace_le options m ticks.toNat)

/-- One tick, and three of which the second faults behind its first instruction. -/
theorem ofRom_of_more_ticks_mid_tick :
    let options : Options :=
      { instructionsPerTick := 2, seed := some 7, trace := true, traceLimit := 3 }
    faultyRom.length ≤ romCapacity ∧ options.seed = some 7 ∧ (1 : Int) ≤ 3 ∧
      ∃ r r', ofRom faultyRom 1 options [-1, 3] 0 = .ok r ∧
        ofRom faultyRom 3 options [-1, 3] 5 = .ok r' ∧ r.status = "ok" ∧ r'.status = "error" ∧
        r'.ticks = 1 ∧ r'.report = some (.invalidOpcode 0x0001 518 1) ∧
        r.trace.toList = [⟨512, 0x6005⟩, ⟨514, 0x6106⟩] ∧
        r'.trace.toList = r.trace.toList ++ [⟨516, 0x6207⟩] := by
  intro options
  obtain ⟨m₁, m₂, m₃, left, ⟨h₀, h₁, h₂, h₃⟩, ⟨hfirst, hsecond⟩, e₀, e₁, e₂⟩ := faultyStart_steps
  have hrom : faultyRom.length ≤ romCapacity := by decide
  have hseed : options.seed = some 7 := rfl
  have hticks : (1 : Int) ≤ 3 := by decide
  obtain ⟨r, r', hrun, hrun', -, hlonger, -⟩ := ofRom_of_more_ticks hrom hseed [-1, 3] 0 5 hticks
  have hr : r = onward options 1 0 ⟨faultyStart, #[]⟩ :=
    Except.ok.inj (hrun.symm.trans (ofRom_of_fits hrom 1 hseed [-1, 3] 0))
  have hbefore : faultyStart.callCycles [2] = ⟨m₂.decay, 1, none⟩ :=
    Machine.callCycles_cons_ok hfirst []
  have hafter : m₂.decay.callCycles [2, 2] = ⟨left, 0, some ⟨0x0001, 518⟩⟩ :=
    Machine.callCycles_cons_error hsecond [2]
  obtain ⟨hmachine, -, hfault⟩ := onward_eq_calls options 1 0 ⟨faultyStart, #[]⟩
  have hbatches : List.replicate 1 options.instructionsPerTick = [2] := rfl
  rw [← hr, hbatches, hbefore] at hmachine hfault
  have htrace : r.trace.toList = [⟨512, 0x6005⟩, ⟨514, 0x6106⟩] := by
    rw [hr, trace_of_start, hbatches, Machine.executedIn_cons_of_ok hfirst,
      show (2 : Int).toNat = 2 from rfl, Machine.executed_succ_of_ok h₀,
      Machine.executed_succ_of_ok h₁, e₀.1, e₀.2, e₁.1, e₁.2]
    rfl
  have hsize : r.trace.size = 2 := by rw [← Array.length_toList, htrace]; rfl
  have hrest : m₂.decay.executedIn [2, 2] = [⟨516, 0x6207⟩] := by
    rw [Machine.executedIn_cons_of_error hsecond, show (2 : Int).toNat = 2 from rfl,
      Machine.executed_succ_of_ok h₂, Machine.executed_succ_of_error h₃, e₂.1, e₂.2]
  have hok : r.status = "ok" := (status_eq_ok_iff r).2 hfault
  obtain ⟨-, -, hcount, -, herror, hreport, htrace'⟩ := hlonger hok
  have hmore :
      List.replicate ((3 : Int).toNat - (1 : Int).toNat) options.instructionsPerTick = [2, 2] := rfl
  rw [hmachine, hmore, hafter] at hcount herror hreport
  rw [hmachine, hmore, hrest, hsize] at htrace'
  exact ⟨hrom, hseed, hticks, r, r', hrun, hrun', hok, herror.2 nofun, hcount, hreport, htrace,
    htrace'⟩

end ChipEight.Run
