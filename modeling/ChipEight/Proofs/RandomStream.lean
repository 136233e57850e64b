/-
# `ChipEight.Proofs.RandomStream` — which random byte goes to which instruction

A source of random bytes is a stream with a position: `source.byte i` is the byte of its
draw number `i`, counted from where the source is now.  One instruction draws, one byte
each time, and nothing else moves the position: not the loader, not a fault, not a trace,
and the instruction itself draws also if its mask lets nothing through.  So the draws of a
run are numbered by the instructions that make them, whatever is executed in between.

**Proved here.**

    a step draws one byte or none                          (`source_step`)
    stretches of a run that are in step with the source
    are so when put together                               (`InStep.append`)
    so a run is, and a series of cycles                    (`inStep_steps`, `inStep_callCycles`)
    and its draw number `i` gets byte number `i`, masked   (`reg_of_draw`, `draws_in_step`)
-/
import ChipEight.Proofs.Moments
import ChipEight.Proofs.WriteSets

namespace ChipEight

theorem RandomSource.after_add (a b : Nat) : ∀ source : RandomSource,
    source.after (a + b) = (source.after a).after b := by
  induction a with
  | zero =>
      intro source
      rw [Nat.zero_add]
      rfl
  | succ a ih =>
      intro source
      rw [Nat.succ_add]
      exact ih source.next.2

namespace Machine

/-- The word at the program counter draws a random byte. -/
def atDraw (m : Machine) : Bool := m.word.group == 0xC

/-- The moments at which a random byte is drawn. -/
def draws (mids : List Machine) : List Machine := mids.filter atDraw

theorem draws_append (mids mids' : List Machine) :
    draws (mids ++ mids') = draws mids ++ draws mids' := List.filter_append _ _

theorem mem_draws {mids : List Machine} {mid : Machine} :
    mid ∈ draws mids ↔ mid ∈ mids ∧ mid.atDraw = true := List.mem_filter

/-! ## One step -/

theorem step_of_draw {m : Machine} (h : m.atDraw = true) :
    m.step = .ok (m.fetched.randomInto m.word.x m.word.kk) := by
  have hdecode : m.word.decode = some (.random m.word.x m.word.kk) :=
    Word.decode_eq_some_iff.2 ⟨beq_iff_eq.1 h, rfl, rfl⟩
  exact step_of_decode rfl hdecode

/-- The register gets the next byte of the source, masked, and no other register changes. -/
theorem reg_of_draw {m next : Machine} (h : m.atDraw = true) (hstep : m.step = .ok next) :
    next.reg m.word.x = m.source.byte 0 &&& m.word.kk ∧
      ∀ r, r ≠ m.word.x → next.reg r = m.reg r := by
  obtain rfl : m.fetched.randomInto m.word.x m.word.kk = next :=
    Except.ok.inj ((step_of_draw h).symm.trans hstep)
  constructor
  · exact (reg_setReg _ _ _ _).trans (if_pos rfl)
  · intro r hr
    exact (reg_setReg _ _ _ _).trans (if_neg (Ne.symm hr))

theorem source_step {m : Machine} (hm : m.WellFormed) :
    (leftBy m.step).source = m.source.after (if m.atDraw then 1 else 0) := by
  split
  · next h =>
      rw [step_of_draw h]
      rfl
  · next h =>
      have hgroup : ¬ m.Writes m.word .source := mt beq_iff_eq.2 h
      exact (sameIn_step hm hgroup).symm

/-! ## Stretches of a run -/

/-- The draws among some moments are in step with a source: the draw number `i` finds it after `i`
draws, and in the end it has been drawn from as often as there are draws. -/
structure InStep (source : RandomSource) (mids : List Machine) (last : RandomSource) : Prop where
  draw : ∀ (i : Nat) (mid : Machine), (draws mids)[i]? = some mid → mid.source = source.after i
  last : last = source.after (draws mids).length

namespace InStep

theorem nil (source : RandomSource) : InStep source [] source := ⟨fun _ _ h => (nomatch h), rfl⟩

/-- The draws of the second stretch are numbered on from those of the first. -/
theorem append {source mid last : RandomSource} {mids mids' : List Machine}
    (h : InStep source mids mid) (h' : InStep mid mids' last) :
    InStep source (mids ++ mids') last where
  draw i m hi := by
    rw [draws_append, List.getElem?_append] at hi
    split at hi
    · exact h.draw i m hi
    · next hlong =>
        rw [h'.draw _ m hi, h.last, ← RandomSource.after_add,
          Nat.add_sub_cancel' (Nat.le_of_not_lt hlong)]
  last := by
    rw [h'.last, h.last, ← RandomSource.after_add, draws_append, List.length_append]

theorem step {m next : Machine} (hm : m.WellFormed) (hstep : m.step = .ok next) :
    InStep m.source [m] next.source := by
  have hsource : next.source = m.source.after (if m.atDraw then 1 else 0) := by
    rw [← source_step hm, hstep]
    rfl
  rw [hsource]
  cases hdraw : m.atDraw with
  | true =>
      have hone : draws [m] = [m] := List.filter_cons_of_pos hdraw
      refine ⟨fun i mid hi => ?_, by rw [hone]; rfl⟩
      rw [hone, List.getElem?_singleton] at hi
      split at hi
      · next hzero =>
          obtain rfl : m = mid := Option.some.inj hi
          rw [hzero]
          rfl
      · cases hi
  | false =>
      have hnone : draws [m] = [] := List.filter_cons_of_neg (by rw [hdraw]; exact nofun)
      refine ⟨fun i mid hi => ?_, by rw [hnone]; rfl⟩
      rw [hnone] at hi
      cases hi

end InStep

/-- By induction on the number of steps, also if the last of them faults. -/
theorem inStep_steps (n : Nat) : ∀ {m : Machine}, m.WellFormed →
    InStep m.source (m.moments n) (leftBy (m.steps n)).source := by
  induction n with
  | zero => exact fun {m} _ => .nil m.source
  | succ n ih =>
      intro m hm
      cases hstep : m.step with
      | ok next =>
          rw [steps_succ_of_ok hstep, moments_succ_of_ok hstep]
          exact (InStep.step hm hstep).append (ih (hm.step_ok hstep))
      | error halt =>
          have hdraw : m.atDraw = false := by
            refine Bool.eq_false_iff.2 fun h => ?_
            cases (step_of_draw h).symm.trans hstep
          have hsource := source_step hm
          rw [hstep, hdraw] at hsource
          have hsame : halt.machine.source = m.source := hsource
          rw [steps_succ_of_error hstep, moments_succ_of_error hstep]
          exact hsame ▸ .nil m.source

theorem inStep_callCycles (batches : List Int) : ∀ {m : Machine}, m.WellFormed →
    InStep m.source (m.momentsIn batches) (m.callCycles batches).machine.source := by
  induction batches with
  | nil => exact fun {m} _ => .nil m.source
  | cons batch batches ih =>
      intro m hm
      have hfirst := inStep_steps batch.toNat hm
      cases hcycle : m.cycle batch with
      | ok next =>
          obtain ⟨last, hlast, rfl⟩ := steps_of_cycle hcycle
          have hleft := hm.steps batch.toNat
          rw [hlast] at hfirst hleft
          have hlater : last.decay.WellFormed := WellFormed.decay hleft
          have hcounted : InStep m.source (m.moments batch.toNat) last.decay.source := hfirst
          rw [callCycles_cons_ok hcycle, momentsIn_cons_of_ok hcycle]
          exact hcounted.append (ih hlater)
      | error halt =>
          rw [cycle_eq_error_iff.1 hcycle] at hfirst
          rw [callCycles_cons_error hcycle, momentsIn_cons_of_error hcycle]
          exact hfirst

/-! ## What the draws get -/

/-- The instruction of a moment puts a byte, masked, in its register, and changes no other one. -/
def Gets (mid : Machine) (b : Byte) : Prop :=
  ∃ next, mid.step = .ok next ∧ next.reg mid.word.x = b &&& mid.word.kk ∧
    ∀ r, r ≠ mid.word.x → next.reg r = mid.reg r

theorem InStep.gets {source last : RandomSource} {mids : List Machine}
    (h : InStep source mids last) {i : Nat} {mid : Machine} (hi : (draws mids)[i]? = some mid) :
    mid.Gets (source.byte i) := by
  have hdraw := (mem_draws.1 (List.mem_of_getElem? hi)).2
  have hbyte : mid.source.byte 0 = source.byte i := by
    rw [h.draw i mid hi]
    rfl
  have hstep := step_of_draw hdraw
  exact ⟨_, hstep, hbyte ▸ reg_of_draw hdraw hstep⟩

/-- Over any number of steps of a machine in range, also if the last of them faults, its source is
drawn from once by each random instruction that is executed and by nothing else, and the random
instruction number `i`, counted from 0, puts the byte number `i` of the source, masked, in its
register and changes no other one.  A run of a ROM starts with the source of its seed as it is; so
in all runs with one seed, of whatever ROM, in ticks of whatever size, recorded or not, the random
instruction number `i` gets one and the same byte. -/
theorem draws_in_step :
    (∀ (m : Machine) (n : Nat), m.WellFormed →
      (leftBy (m.steps n)).source = m.source.after (draws (m.moments n)).length ∧
        ∀ (i : Nat) (mid : Machine), (draws (m.moments n))[i]? = some mid →
          mid.Gets (m.source.byte i)) ∧
    ∀ (seed : Int) (rom : List Byte) (ticks : Int) (options : Options) (keys : List Int)
      (chosenSeed : Int) (r : Run), options.seed = some seed →
      Run.ofRom rom ticks options keys chosenSeed = .ok r →
      ∃ m, load rom (.seeded seed) = .ok m ∧
        let mids :=
          (m.setKeys keys).momentsIn (List.replicate ticks.toNat options.instructionsPerTick)
        r.machine.source = (RandomSource.seeded seed).after (draws mids).length ∧
          ∀ (i : Nat) (mid : Machine), (draws mids)[i]? = some mid →
            mid.Gets ((RandomSource.seeded seed).byte i) := by
  constructor
  · intro m n hm
    have hsteps := inStep_steps n hm
    exact ⟨hsteps.last, fun _ _ hi => hsteps.gets hi⟩
  · intro seed rom ticks options keys chosenSeed r hseed hrun
    obtain ⟨m, hstart, hmachine, -, -⟩ := Run.calls_of_ofRom hrun
    obtain ⟨hrom, rfl⟩ := Run.start_eq_ok_iff.1 hstart
    have hcalls := inStep_callCycles
      (List.replicate ticks.toNat options.instructionsPerTick) (Run.wellFormed_of_start hstart)
    have hchosen : options.seedOr chosenSeed = seed := by
      rw [Options.seedOr, hseed]
      rfl
    rw [← hmachine, hchosen] at hcalls
    exact ⟨_, load_of_fits hrom _, hcalls.last, fun _ _ hi => hcalls.gets hi⟩

/-- Draws a byte for each of two registers, and stops at an unassigned word. -/
def drawingRom : List Byte := [0xC0, 0x0F, 0xC1, 0xFF, 0x00, 0x01]

def drawing (source : RandomSource) : Machine :=
  (withRom drawingRom source).setKeys [3]

theorem drawing_steps (source : RandomSource) :
    ∃ m₁ m₂ left left', (drawing source).step = .ok m₁ ∧ m₁.step = .ok m₂ ∧
      m₂.step = .error ⟨⟨0x0001, 516⟩, left⟩ ∧
      m₂.decay.step = .error ⟨⟨0x0001, 516⟩, left'⟩ ∧
      (drawing source).word = 0xC00F ∧ m₁.word = 0xC1FF := by
  let m₁ := (drawing source).fetched.apply (.random 0 0x0F)
  let m₂ := m₁.fetched.apply (.random 1 0xFF)
  have hrom : drawingRom.length ≤ romCapacity := by decide
  have b₀ : Word.ofBytes drawingRom[0] drawingRom[1] = 0xC00F := by decide
  have b₁ : Word.ofBytes drawingRom[2] drawingRom[3] = 0xC1FF := by decide
  have b₂ : Word.ofBytes drawingRom[4] drawingRom[5] = 0x0001 := by decide
  have e₀ : (drawing source).memory = (withRom drawingRom source).memory := rfl
  have e₁ : m₁.memory = (withRom drawingRom source).memory := rfl
  have e₂ : m₂.memory = (withRom drawingRom source).memory := rfl
  have e₃ : m₂.decay.memory = (withRom drawingRom source).memory := rfl
  have p₀ : (drawing source).pc = romStart + (0 : Nat) := rfl
  have p₁ : m₁.pc = romStart + (2 : Nat) := rfl
  have p₂ : m₂.pc = romStart + (4 : Nat) := rfl
  have p₃ : m₂.decay.pc = romStart + (4 : Nat) := rfl
  have w₀ : (drawing source).word = 0xC00F := word_withRom e₀ hrom p₀ (by decide) b₀
  have w₁ : m₁.word = 0xC1FF := word_withRom e₁ hrom p₁ (by decide) b₁
  have w₂ : m₂.word = 0x0001 := word_withRom e₂ hrom p₂ (by decide) b₂
  have w₃ : m₂.decay.word = 0x0001 := word_withRom e₃ hrom p₃ (by decide) b₂
  have h₀ : (drawing source).step = .ok m₁ := step_of_decode w₀ rfl
  have h₁ : m₁.step = .ok m₂ := step_of_decode w₁ rfl
  have h₂ : m₂.step = .error ⟨⟨0x0001, 516⟩, m₂.fetched⟩ := step_of_unassigned w₂ rfl
  have h₃ : m₂.decay.step = .error ⟨⟨0x0001, 516⟩, m₂.decay.fetched⟩ :=
    step_of_unassigned w₃ rfl
  exact ⟨m₁, m₂, m₂.fetched, m₂.decay.fetched, h₀, h₁, h₂, h₃, w₀, w₁⟩

/-- The two draws are all that is executed, in one go or in two ticks of two instructions each. -/
theorem draws_drawing (source : RandomSource) :
    ∃ m₁, draws ((drawing source).moments 3) = [drawing source, m₁] ∧
      draws ((drawing source).momentsIn [2, 2]) = [drawing source, m₁] := by
  obtain ⟨m₁, m₂, left, left', h₀, h₁, h₂, h₃, w₀, w₁⟩ := drawing_steps source
  have hdraws : draws [drawing source, m₁] = [drawing source, m₁] := by
    rw [draws, List.filter_cons_of_pos (by rw [atDraw, w₀]; decide),
      List.filter_cons_of_pos (by rw [atDraw, w₁]; decide), List.filter_nil]
  have hthree : (drawing source).moments 3 = [drawing source, m₁] := by
    rw [moments_succ_of_ok h₀, moments_succ_of_ok h₁, moments_succ_of_error h₂]
  have htwo : (drawing source).moments 2 = [drawing source, m₁] := by
    rw [moments_succ_of_ok h₀, moments_succ_of_ok h₁]
    rfl
  have hfirst : (drawing source).cycle 2 = .ok m₂.decay :=
    cycle_of_steps ((steps_succ_of_ok h₀ 1).trans (steps_succ_of_ok h₁ 0))
  have hsecond : m₂.decay.cycle 2 = .error ⟨⟨0x0001, 516⟩, left'⟩ :=
    cycle_of_halted (steps_succ_of_error h₃ 1)
  have hticks : (drawing source).momentsIn [2, 2] = [drawing source, m₁] := by
    rw [momentsIn_cons_of_ok hfirst, momentsIn_cons_of_error hsecond,
      show (2 : Int).toNat = 2 from rfl, htwo, moments_succ_of_error h₃, List.append_nil]
  exact ⟨m₁, hthree ▸ hdraws, hticks ▸ hdraws⟩

/-- Two draws and a fault, once from a source with known bytes and once in a run of two ticks. -/
theorem draws_in_step_up_to_fault :
    let m := drawing (.repeating [0x5A, 0xC3])
    m.WellFormed ∧
      (∃ mid mid', draws (m.moments 3) = [mid, mid'] ∧ mid.Gets 0x5A ∧ mid'.Gets 0xC3) ∧
      (leftBy (m.steps 3)).source = .cycle #[0x5A, 0xC3] 2 ∧
      ∃ r, Run.ofRom drawingRom 2 { instructionsPerTick := 2, seed := some 7 } [3] 0 = .ok r ∧
        r.machine.source = (RandomSource.seeded 7).after 2 := by
  intro m
  have hwf : m.WellFormed := (wellFormed_withRom _ _).withKeypad _
  have hrom : drawingRom.length ≤ romCapacity := by decide
  obtain ⟨hsteps, hruns⟩ := draws_in_step
  obtain ⟨m₁, hthree, -⟩ := draws_drawing (.repeating [0x5A, 0xC3])
  obtain ⟨m₁', -, hticks⟩ := draws_drawing (.seeded 7)
  obtain ⟨hlast, hgets⟩ := hsteps m 3 hwf
  rw [show draws (m.moments 3) = [m, m₁] from hthree] at hlast hgets ⊢
  let options : Options := { instructionsPerTick := 2, seed := some 7 }
  have hseed : options.seed = some 7 := rfl
  have hrun := Run.ofRom_of_fits hrom 2 hseed [3] 0
  obtain ⟨m', hload, hend, -⟩ := hruns 7 _ _ _ _ _ _ hseed hrun
  obtain rfl : withRom drawingRom (.seeded 7) = m' :=
    Except.ok.inj ((load_of_fits hrom _).symm.trans hload)
  refine ⟨hwf, ⟨m, m₁, rfl, hgets 0 m rfl, hgets 1 m₁ rfl⟩, hlast, _, hrun, hend.trans ?_⟩
  have hdrawn : (draws (((withRom drawingRom (.seeded 7)).setKeys [3]).momentsIn
      (List.replicate (2 : Int).toNat 2))).length = 2 := congrArg List.length hticks
  rw [hdrawn]

end Machine

end ChipEight
