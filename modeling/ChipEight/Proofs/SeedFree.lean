/-
# `ChipEight.Proofs.SeedFree` — runs whose result does not depend on the seed

A run without a seed of its own gets one from the host, which is another one every time.
What it does with the random bytes may still not show in its result: what is left of the
source is no part of that.  In particular it does not show if no byte is drawn at all,
since the source is a device like the others.

**Proved here.**

    in a series of cycles that reads none of some devices, machines
    that are equal outside them stay so                                 (`EqualOutside.callCycles_of_unread`)
    a run with a seed of its own has one result                         (`seedFree_of_seed`)
    so has a run that draws no byte                                     (`seedFree_of_unread`)
-/
import ChipEight.Proofs.Devices
import ChipEight.Proofs.Trace

namespace ChipEight

namespace Machine

variable {hidden : Device → Prop}

theorem SameOutcome.cycle_of_steps {m m' : Machine} {batch : Int}
    (h : SameOutcome (devices hidden) (m.steps batch.toNat) (m'.steps batch.toNat)) :
    SameOutcome (devices hidden) (m.cycle batch) (m'.cycle batch) := by
  rw [cycle, cycle]
  generalize m.steps batch.toNat = r at h ⊢
  generalize m'.steps batch.toNat = r' at h ⊢
  cases h with
  | ok hlast => exact .ok hlast.decay
  | error fault hleft => exact .error fault hleft

/-- By induction on the cycles. -/
theorem EqualOutside.callCycles_of_unread (batches : List Int) : ∀ {m m' : Machine},
    EqualOutside hidden m m' → m.WellFormed → m'.WellFormed →
    Unread hidden (m.executedIn batches) →
    m.executedIn batches = m'.executedIn batches ∧
      (m.callCycles batches).completed = (m'.callCycles batches).completed ∧
      (m.callCycles batches).fault = (m'.callCycles batches).fault ∧
      EqualOutside hidden (m.callCycles batches).machine (m'.callCycles batches).machine := by
  induction batches with
  | nil => exact fun h _ _ _ => ⟨rfl, rfl, rfl, h⟩
  | cons batch batches ih =>
      intro m m' h hm hm' hunread
      have hfirst : Unread hidden (m.executed batch.toNat) :=
        fun e he => hunread e (List.mem_append_left _ he)
      obtain ⟨hentries, hsteps⟩ := h.agree.executed_of_unread batch.toNat hm hm' (.inl hfirst)
      have houtcome := hsteps.cycle_of_steps
      have hleft := hm.cycle batch
      have hleft' := hm'.cycle batch
      cases hcycle : m.cycle batch with
      | ok next =>
          cases hcycle' : m'.cycle batch with
          | ok next' =>
              rw [hcycle] at houtcome hleft
              rw [hcycle'] at houtcome hleft'
              rw [executedIn_cons_of_ok hcycle] at hunread ⊢
              rw [executedIn_cons_of_ok hcycle', callCycles_cons_ok hcycle,
                callCycles_cons_ok hcycle', hentries]
              cases houtcome with
              | ok hnext =>
                  obtain ⟨hmore, hcompleted, hend⟩ := ih (hnext.equalOutside hleft hleft') hleft
                    hleft' fun e he => hunread e (List.mem_append_right _ he)
                  rw [hmore]
                  exact ⟨rfl, congrArg (· + 1) hcompleted, hend⟩
          | error halt' =>
              rw [hcycle, hcycle'] at houtcome
              cases houtcome
      | error halt =>
          cases hcycle' : m'.cycle batch with
          | ok next' =>
              rw [hcycle, hcycle'] at houtcome
              cases houtcome
          | error halt' =>
              rw [hcycle] at houtcome hleft
              rw [hcycle'] at houtcome hleft'
              rw [executedIn_cons_of_error hcycle, executedIn_cons_of_error hcycle',
                callCycles_cons_error hcycle, callCycles_cons_error hcycle']
              cases houtcome with
              | error fault hleftover =>
                  exact ⟨hentries, rfl, rfl, hleftover.equalOutside hleft hleft'⟩

end Machine

namespace Run

/-! ## Results -/

/-- Two runs have the same result: all that they hand back, short of the machines themselves. -/
structure SameResult (r r' : Run) : Prop where
  ticks : r.ticks = r'.ticks
  trace : r.trace = r'.trace
  fault : r.fault = r'.fault
  screen : r.machine.screen = r'.machine.screen
  registers : r.machine.registers = r'.machine.registers
  index : r.machine.index = r'.machine.index
  pc : r.machine.pc = r'.machine.pc
  stack : r.machine.stack = r'.machine.stack
  sp : r.machine.sp = r'.machine.sp
  delay : r.machine.delay = r'.machine.delay
  sound : r.machine.sound = r'.machine.sound

namespace SameResult

variable {r r' r'' : Run}

theorem refl (r : Run) : r.SameResult r := ⟨rfl, rfl, rfl, rfl, rfl, rfl, rfl, rfl, rfl, rfl, rfl⟩

theorem symm (h : r.SameResult r') : r'.SameResult r :=
  ⟨h.ticks.symm, h.trace.symm, h.fault.symm, h.screen.symm, h.registers.symm, h.index.symm,
    h.pc.symm, h.stack.symm, h.sp.symm, h.delay.symm, h.sound.symm⟩

theorem trans (h : r.SameResult r') (h' : r'.SameResult r'') : r.SameResult r'' :=
  ⟨h.ticks.trans h'.ticks, h.trace.trans h'.trace, h.fault.trans h'.fault,
    h.screen.trans h'.screen, h.registers.trans h'.registers, h.index.trans h'.index,
    h.pc.trans h'.pc, h.stack.trans h'.stack, h.sp.trans h'.sp, h.delay.trans h'.delay,
    h.sound.trans h'.sound⟩

end SameResult

/-- The result is the same whatever seed the host chooses. -/
def SeedFree (rom : List Byte) (ticks : Int) (options : Options) (keys : List Int) : Prop :=
  ∀ (chosenSeed chosenSeed' : Int) (r r' : Run),
    ofRom rom ticks options keys chosenSeed = .ok r →
    ofRom rom ticks options keys chosenSeed' = .ok r' → r.SameResult r'

variable {rom : List Byte} {options : Options} {keys : List Int}

/-- The host is not asked for a seed. -/
theorem seedFree_of_seed (hseed : options.seed ≠ none) (ticks : Int) :
    SeedFree rom ticks options keys := by
  intro chosenSeed chosenSeed' r r' hrun hrun'
  obtain ⟨seed, hsome⟩ := Option.ne_none_iff_exists'.1 hseed
  have hchosen : options.seedOr chosenSeed = options.seedOr chosenSeed' := by
    rw [Options.seedOr, Options.seedOr, hsome]
    rfl
  rw [ofRom, start, ← hchosen] at hrun'
  rw [ofRom, start, hrun'] at hrun
  cases hrun
  exact .refl r

/-- The random source as the only device. -/
def onlySource (d : Device) : Prop := d = .source

theorem unread_source {entries : List Entry} (h : ∀ e ∈ entries, e.word.group ≠ 0xC) :
    Machine.Unread onlySource entries := by
  rintro e he d hread rfl
  exact h e he hread

theorem equalOutside_withRom (source source' : RandomSource) :
    Machine.EqualOutside onlySource ((Machine.withRom rom source).setKeys keys)
      ((Machine.withRom rom source').setKeys keys) :=
  ⟨rfl, rfl, rfl, fun _ => rfl, fun _ => rfl, rfl, rfl, rfl, fun _ => rfl, fun _ => rfl,
    fun h => absurd rfl h⟩

/-- Two seeds make machines that differ in their source. -/
theorem equalOutside_of_start {chosenSeed chosenSeed' : Int} {m m' : Machine}
    (h : start rom options keys chosenSeed = .ok m)
    (h' : start rom options keys chosenSeed' = .ok m') : Machine.EqualOutside onlySource m m' := by
  obtain ⟨-, rfl⟩ := start_eq_ok_iff.1 h
  obtain ⟨-, rfl⟩ := start_eq_ok_iff.1 h'
  exact equalOutside_withRom _ _

/-- No instruction that draws a byte is executed. -/
theorem seedFree_of_unread {ticks chosenSeed : Int} {m : Machine}
    (hstart : start rom options keys chosenSeed = .ok m)
    (hunread : ∀ e ∈ m.executedIn (List.replicate ticks.toNat options.instructionsPerTick),
      e.word.group ≠ 0xC) : SeedFree rom ticks options keys := by
  have hsame : ∀ chosenSeed' r', ofRom rom ticks options keys chosenSeed' = .ok r' →
      (onward options ticks.toNat 0 ⟨m, #[]⟩).SameResult r' := by
    intro chosenSeed' r' hrun
    obtain ⟨m', hstart', rfl⟩ := ofRom_eq_ok_iff.1 hrun
    obtain ⟨hentries, hcompleted, hfaults, hend⟩ :=
      (equalOutside_of_start hstart hstart').callCycles_of_unread _ (wellFormed_of_start hstart)
        (wellFormed_of_start hstart') (unread_source hunread)
    obtain ⟨hmachine, hticks, hfault⟩ := onward_eq_calls options ticks.toNat 0 ⟨m, #[]⟩
    obtain ⟨hmachine', hticks', hfault'⟩ := onward_eq_calls options ticks.toNat 0 ⟨m', #[]⟩
    have htrace := trace_of_start options m ticks.toNat
    rw [hentries, ← trace_of_start options m' ticks.toNat] at htrace
    rw [← hmachine, ← hmachine'] at hend
    exact ⟨by rw [hticks, hticks', hcompleted], Array.ext' htrace,
      by rw [hfault, hfault', hfaults], hend.screen nofun, hend.registers, hend.index, hend.pc,
      hend.stack, hend.sp, hend.delay nofun, hend.sound nofun⟩
  exact fun _ _ r r' hrun hrun' => (hsame _ r hrun).symm.trans (hsame _ r' hrun')

end Run

end ChipEight
