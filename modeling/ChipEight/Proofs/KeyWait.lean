/-
# `ChipEight.Proofs.KeyWait` — a program that waits for a key, and the key that wakes it

While no key is held, the wait goes back to its own word, so that the next step comes to
the same place: the machine stands still, wherever in the memory the word lies.  All that
still moves are the timers, once in each cycle.

A host wakes the machine by its calls for the keypad.  They take integers, and what is
held after several of them is known by the numbers it has been given: those of the last
replacement and of the presses since, without the ones released.

**Proved here.**

    a step of a waiting machine leaves it as it is            (`Waiting.step`)
    a series of cycles only counts its timers down            (`Waiting.callCycles`)
    the keys that several calls leave held                    (`Holds.foldl`)
    with a key held, the wait ends with the lowest one        (`step_of_lowest?`)
    so a host can let it wait as long as it likes, and the
    first step after its calls for the keypad ends the wait   (`wait_for_key`)
-/
import ChipEight.Proofs.RunCycles
import ChipEight.Proofs.WriteSets

namespace ChipEight

/-! ## Keys by their numbers -/

/-- The calls for the keypad. -/
def Action.OnKeys : Action → Prop
  | .press _ | .release _ | .setKeys _ => True
  | _ => False

/-- The numbers of the keys held after a call. -/
def Action.onNumbers : Action → List Int → List Int
  | .press key, keys => key :: keys
  | .release key, keys => keys.filter fun other => other % 16 != key % 16
  | .setKeys keys, _ => keys
  | _, keys => keys

namespace Keypad

/-- The held keys are those with the given numbers. -/
def Holds (pad : Keypad) (keys : List Int) : Prop :=
  ∀ query : Int, pad.isHeld query = true ↔ ∃ key ∈ keys, key % 16 = query % 16

theorem Released.holds {pad : Keypad} (h : pad.Released) : pad.Holds [] := by
  intro query
  have hkey : ((residue 16 query).val : Int) % 16 = query % 16 := by
    rw [residue_val]
    omega
  have hfree : pad.isHeld query = false := by
    rw [isHeld, ← (residue_eq_residue_iff 16 _ _).2 hkey]
    exact h (residue 16 query)
  simp only [hfree, Bool.false_eq_true, List.not_mem_nil, false_and, exists_false]

variable {pad : Keypad} {keys : List Int}

theorem Holds.released_iff (h : pad.Holds keys) : pad.Released ↔ keys = [] := by
  constructor
  · intro hreleased
    refine List.eq_nil_iff_forall_not_mem.2 fun key hkey => ?_
    exact absurd ((hreleased.holds key).1 ((h key).2 ⟨key, hkey, rfl⟩)) (by simp)
  · rintro rfl key
    refine Bool.eq_false_iff.2 fun hheld => ?_
    obtain ⟨other, hother, -⟩ := (h key.val).1 hheld
    exact absurd hother List.not_mem_nil

theorem Holds.onKeys (h : pad.Holds keys) (a : Action) :
    (a.onKeys pad).Holds (a.onNumbers keys) := by
  intro query
  cases a with
  | press key =>
      simp only [Action.onKeys, Action.onNumbers, isHeld_press, List.mem_cons, or_and_right,
        exists_or, exists_eq_left]
      by_cases hkey : key % 16 = query % 16
      · simp only [hkey, if_true, true_or]
      · simp only [hkey, if_false, false_or, h query]
  | release key =>
      simp only [Action.onKeys, Action.onNumbers, isHeld_release, List.mem_filter, bne_iff_ne]
      by_cases hkey : key % 16 = query % 16
      · simp only [hkey, if_true, Bool.false_eq_true, false_iff]
        rintro ⟨other, ⟨-, hother⟩, heq⟩
        exact hother heq
      · simp only [hkey, if_false, h query]
        refine exists_congr fun other => and_congr_left fun heq => ?_
        exact (and_iff_left (heq ▸ Ne.symm hkey)).symm
  | setKeys keys =>
      simp only [Action.onKeys, Action.onNumbers, isHeld_hold, List.any_eq_true, decide_eq_true_eq]
  | _ => exact h query

theorem Holds.foldl (calls : List Action) : ∀ {pad : Keypad} {keys : List Int}, pad.Holds keys →
    (calls.foldl (fun pad a => a.onKeys pad) pad).Holds
      (calls.foldl (fun keys a => a.onNumbers keys) keys) := by
  induction calls with
  | nil => exact fun h => h
  | cons a calls ih => exact fun h => ih (h.onKeys a)

/-- The lowest of the held keys has one of their numbers, and the others are not below it. -/
theorem Holds.exists_lowest (h : pad.Holds keys) (hsome : keys ≠ []) :
    ∃ lowest : Fin 16, pad.lowest? = some lowest ∧ (∃ key ∈ keys, key % 16 = lowest.val) ∧
      ∀ key ∈ keys, (lowest.val : Int) ≤ key % 16 := by
  cases hlowest : pad.lowest? with
  | none => exact absurd (h.released_iff.1 (pad.lowest?_eq_none_iff.1 hlowest)) hsome
  | some lowest =>
      obtain ⟨hheld, hmin⟩ := le_of_lowest? hlowest
      have hrange : (lowest.val : Int) % 16 = lowest.val := by omega
      refine ⟨lowest, rfl, hrange ▸ (h lowest.val).1 hheld, fun key hkey => ?_⟩
      have hval := residue_val 16 key
      have hother : pad.isHeld (residue 16 key).val = true :=
        (h _).2 ⟨key, hkey, by rw [hval]; omega⟩
      have hle : lowest.val ≤ (residue 16 key).val := hmin _ hother
      omega

end Keypad

namespace Machine

theorem performAll_onKeys (calls : List Action) : ∀ {m : Machine}, (∀ a ∈ calls, a.OnKeys) →
    m.performAll calls = { m with keypad := calls.foldl (fun pad a => a.onKeys pad) m.keypad } := by
  induction calls with
  | nil => exact fun _ => rfl
  | cons a calls ih =>
      intro m hcalls
      obtain ⟨hfirst, hrest⟩ := List.forall_mem_cons.1 hcalls
      have hone : m.perform a = { m with keypad := a.onKeys m.keypad } := by
        cases a with
        | press key | release key | setKeys keys => rfl
        | _ => cases hfirst
      refine (ih hrest).trans ?_
      rw [hone]
      rfl

/-! ## Waiting -/

/-- The word at the program counter waits for a key, and none is held. -/
structure Waiting (m : Machine) (x : Register) : Prop where
  inRange : m.WellFormed
  word : m.word.decode = some (.awaitKey x)
  released : m.keypad.Released

/-- The machine with its timers counted down several times. -/
def decayed (m : Machine) (k : Nat) : Machine :=
  { m with delay := max 0 (m.delay - k), sound := max 0 (m.sound - k) }

theorem WellFormed.decayed_zero {m : Machine} (hm : m.WellFormed) : m.decayed 0 = m := by
  have hdelay : max 0 (m.delay - (0 : Nat)) = m.delay := by
    have hlow := hm.delay.1
    omega
  have hsound : max 0 (m.sound - (0 : Nat)) = m.sound := by
    have hlow := hm.sound.1
    omega
  rw [decayed, hdelay, hsound]

theorem countDown_eq_max {t : Int} (ht : 0 ≤ t) : countDown t = max 0 (t - 1) := by
  rw [countDown]
  split
  · omega
  · omega

theorem WellFormed.decayed_succ {m : Machine} (hm : m.WellFormed) (k : Nat) :
    m.decayed (k + 1) = m.decay.decayed k := by
  have hdelay : max 0 (m.delay - (k + 1 : Nat)) = max 0 (Machine.countDown m.delay - k) := by
    rw [countDown_eq_max hm.delay.1]
    omega
  have hsound : max 0 (m.sound - (k + 1 : Nat)) = max 0 (Machine.countDown m.sound - k) := by
    rw [countDown_eq_max hm.sound.1]
    omega
  rw [decayed, decayed, hdelay, hsound]
  rfl

namespace Waiting

variable {m : Machine} {x : Register} (h : m.Waiting x)
include h

/-- The word is fetched, and the wait goes back over it. -/
theorem step : m.step = .ok m := by
  have hback : ((m.pc + 2) % 4096 - 2) % 4096 = m.pc := by
    have hpc := h.inRange.pc
    omega
  have hlowest : m.fetched.keypad.lowest? = none := m.keypad.lowest?_eq_none_iff.2 h.released
  rw [step_of_decode rfl h.word, apply, awaitKeyInto, hlowest]
  show Except.ok { m with pc := ((m.pc + 2) % 4096 - 2) % 4096 } = Except.ok m
  rw [hback]

theorem steps (n : Nat) : m.steps n = .ok m := by
  induction n with
  | zero => rfl
  | succ n ih => rw [steps_succ_of_ok h.step, ih]

theorem cycle (batch : Int) : m.cycle batch = .ok m.decay := cycle_of_steps (h.steps _)

theorem decay : m.decay.Waiting x := ⟨h.inRange.decay, h.word, h.released⟩

omit h in
theorem callCycles (batches : List Int) : ∀ {m : Machine}, m.Waiting x →
    m.callCycles batches = ⟨m.decayed batches.length, batches.length, none⟩ := by
  induction batches with
  | nil =>
      intro m h
      rw [List.length_nil, h.inRange.decayed_zero]
      rfl
  | cons batch batches ih =>
      intro m h
      rw [callCycles_cons_ok (h.cycle batch), ih h.decay, List.length_cons, h.inRange.decayed_succ]

end Waiting

/-! ## Waking -/

theorem step_of_lowest? {m : Machine} {x : Register} (hword : m.word.decode = some (.awaitKey x))
    {key : Fin 16} (hkey : m.keypad.lowest? = some key) :
    m.step = .ok { m.setReg x (BitVec.ofNat 8 key.val) with pc := (m.pc + 2) % 4096 } := by
  have hfetched : m.fetched.keypad.lowest? = some key := hkey
  rw [step_of_decode rfl hword, apply, awaitKeyInto, hfetched]
  rfl

/-- A machine waits at a word of group F that ends in 0A, and no key is held.  Then any number of
cycles of any sizes end without a fault and change nothing but the timers, which go down by one for
each of them until they are zero.  After that the host makes any calls for the keypad; they change
nothing else.  If a key is held then, the next step puts the lowest one in the register of the word
and goes on behind the word, and that is all it does. -/
theorem wait_for_key {m : Machine} (hm : m.WellFormed) (hreleased : m.keypad.Released)
    (hgroup : m.word.group = 0xF) (hkk : m.word.kk.toNat = 0x0A) (batches : List Int) :
    m.callCycles batches = ⟨m.decayed batches.length, batches.length, none⟩ ∧
    ∀ calls : List Action, (∀ a ∈ calls, a.OnKeys) →
      let polled := (m.decayed batches.length).performAll calls
      let keys := calls.foldl (fun keys a => a.onNumbers keys) []
      { polled with keypad := m.keypad } = m.decayed batches.length ∧ polled.keypad.Holds keys ∧
        (keys ≠ [] → ∃ lowest : Fin 16, (∃ key ∈ keys, key % 16 = lowest.val) ∧
          (∀ key ∈ keys, (lowest.val : Int) ≤ key % 16) ∧
          polled.step = .ok
            { polled.setReg m.word.x (BitVec.ofNat 8 lowest.val) with
              pc := (m.pc + 2) % 4096 }) := by
  have hword : m.word.decode = some (.awaitKey m.word.x) :=
    Word.decode_eq_some_iff.2 ⟨hgroup, hkk, rfl⟩
  refine ⟨Waiting.callCycles batches ⟨hm, hword, hreleased⟩, fun calls hcalls => ?_⟩
  have hholds := Keypad.Holds.foldl calls hreleased.holds
  simp only [performAll_onKeys calls hcalls]
  refine ⟨rfl, hholds, fun hsome => ?_⟩
  obtain ⟨lowest, hlowest, hnumber, hmin⟩ := hholds.exists_lowest hsome
  let polled : Machine :=
    { m.decayed batches.length with
      keypad := calls.foldl (fun pad a => a.onKeys pad) m.keypad }
  exact ⟨lowest, hnumber, hmin, step_of_lowest? (m := polled) hword hlowest⟩

/-- The word lies across the end of memory; both timers are running. -/
def listening : Machine :=
  { blank (.seeded 7) with
    memory := (Memory.zero.set 4095 0xF5).set 0 0x0A
    pc := 4095
    delay := 3
    sound := 1 }

theorem wellFormed_listening : listening.WellFormed := by
  have hblank := wellFormed_blank (.seeded 7)
  have hpc : (0 : Int) ≤ 4095 ∧ (4095 : Int) < 4096 := by decide
  have hdelay : (0 : Int) ≤ 3 ∧ (3 : Int) < 256 := by decide
  have hsound : (0 : Int) ≤ 1 ∧ (1 : Int) < 256 := by decide
  exact ⟨hblank.stack, hblank.index, hpc, hblank.sp, hdelay, hsound⟩

theorem word_listening : listening.word = 0xF50A := by
  have hlast : listening.memory.read 4095 = 0xF5 := by
    rw [listening, Memory.read_set, Memory.read_set]
    rfl
  have hfirst : listening.memory.read 4096 = 0x0A := by
    rw [listening, Memory.read_set]
    rfl
  show Word.ofBytes (listening.memory.read 4095) (listening.memory.read 4096) = 0xF50A
  rw [hlast, hfirst]
  rfl

/-- Two cycles, one of them of no instruction.  Then the keys 14 and 3 are held under other numbers,
in place of two others, and one more is pressed and let go of. -/
theorem wait_for_key_across_the_end :
    let calls : List Action :=
      [.setKeys [5, 9], .press 0, .setKeys [-2, 35], .press 20, .release (-12)]
    listening.WellFormed ∧ listening.keypad.Released ∧ listening.word.group = 0xF ∧
      listening.word.kk.toNat = 0x0A ∧ (∀ a ∈ calls, a.OnKeys) ∧
      ∃ waited next, listening.callCycles [500, -1] = ⟨waited, 2, none⟩ ∧
        waited.pc = 4095 ∧ waited.delay = 1 ∧ waited.sound = 0 ∧
        (waited.performAll calls).step = .ok next ∧
        next.reg 5 = 3 ∧ next.pc = 1 ∧ next.delay = 1 := by
  intro calls
  have hreleased : listening.keypad.Released := by decide
  have hgroup : listening.word.group = 0xF := by
    rw [word_listening]
    decide
  have hkk : listening.word.kk.toNat = 0x0A := by
    rw [word_listening]
    decide
  have hcalls : ∀ a ∈ calls, a.OnKeys := by simp [calls, Action.OnKeys]
  have hkeys : calls.foldl (fun keys a => a.onNumbers keys) [] = [-2, 35] := by decide
  obtain ⟨hwait, hwake⟩ := wait_for_key wellFormed_listening hreleased hgroup hkk [500, -1]
  obtain ⟨-, -, hstep⟩ := hwake calls hcalls
  rw [hkeys] at hstep
  obtain ⟨lowest, ⟨key, hkey, hnumber⟩, hmin, hstep⟩ := hstep (by decide)
  have hthree : lowest = 3 := by
    have hle := hmin 35 (by decide)
    simp only [List.mem_cons, List.not_mem_nil, or_false] at hkey
    omega
  subst hthree
  refine ⟨wellFormed_listening, hreleased, hgroup, hkk, hcalls, _, _, hwait, rfl, rfl, rfl, hstep,
    ?_, rfl, rfl⟩
  rw [word_listening]
  exact (reg_setReg _ _ _ _).trans (if_pos rfl)

end Machine

end ChipEight
