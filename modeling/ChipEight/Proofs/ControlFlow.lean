/-
# `ChipEight.Proofs.ControlFlow` — where each word leads

A fetch moves the program counter on by one word before anything is known about the
word.  What follows may replace it (a jump, a call, a return), move it once more (a
skip), move it back (the wait for a key) or leave it.  Here is the outcome of both
together: a table, by the digits of the word at the program counter and by what the
machine holds before the step.  All moves go round the end of memory, and a word may lie
across it.

**Proved here.**

    what one instruction does to the program counter         (`pc_apply`)
    the table says the same of fetch and instruction         (`follow_fetched`)
    so it says where every step leads that does not fault,
    and of two words with opposite conditions one skips      (`pc_of_step`)
-/
import ChipEight.Proofs.History
import ChipEight.Proofs.Words

namespace ChipEight

namespace Machine

/-! ## One instruction -/

/-- Where an instruction leads, from the program counter behind its word. -/
def follow (m : Machine) : Instruction → Int
  | .ret => m.stack.get (residue 16 (m.sp - 1))
  | .jump target | .call target => target.val
  | .jumpOffset target => ((m.reg 0).toNat + target.val) % 4096
  | .skip c => if m.holds c then (m.pc + 2) % 4096 else m.pc
  | .awaitKey _ => if m.keypad.Released then (m.pc - 2) % 4096 else m.pc
  | _ => m.pc

theorem pc_apply (m : Machine) (i : Instruction) : (m.apply i).pc = m.follow i := by
  cases i with
  | skip c =>
      rw [apply, follow]
      split
      · rfl
      · rfl
  | awaitKey x =>
      rw [apply, awaitKeyInto, follow]
      cases hlowest : m.keypad.lowest? with
      | none => exact (if_pos (m.keypad.lowest?_eq_none_iff.1 hlowest)).symm
      | some key =>
          refine (if_neg fun hreleased => ?_).symm
          rw [m.keypad.lowest?_eq_none_iff.2 hreleased] at hlowest
          cases hlowest
  | combine o x y =>
      simp only [apply, combineInto]
      split
      · rfl
      · rfl
  | fill x => simp only [apply, fillUpTo, follow]
  | _ => rfl

/-! ## Words -/

/-- Whether a word skips the next one. -/
def skips (m : Machine) (w : Word) : Bool :=
  match w.group with
  | 0x3 => m.reg w.x == w.kk
  | 0x4 => m.reg w.x != w.kk
  | 0x5 => m.reg w.x == m.reg w.y
  | 0x9 => m.reg w.x != m.reg w.y
  | 0xE =>
      (w.n.val == 0xE && m.keypad.isHeld (m.reg w.x).toNat) ||
        (w.n.val == 0x1 && !m.keypad.isHeld (m.reg w.x).toNat)
  | _ => false

/-- Where a word leads that stands at the program counter. -/
def destination (m : Machine) (w : Word) : Int :=
  if m.skips w then (m.pc + 4) % 4096
  else
    match w.group with
    | 0x0 => if w.n.val = 0xE then m.stack.get (residue 16 (m.sp - 1)) else (m.pc + 2) % 4096
    | 0x1 | 0x2 => w.nnn.val
    | 0xB => ((m.reg 0).toNat + w.nnn.val) % 4096
    | 0xF => if w.kk.toNat = 0x0A ∧ m.keypad.Released then m.pc else (m.pc + 2) % 4096
    | _ => (m.pc + 2) % 4096

section

variable {m : Machine} {w : Word}

theorem holds_eq_skips {c : Condition} (hi : w.decode = some (.skip c)) :
    m.holds c = m.skips w := by
  obtain ⟨hgroup, hfits⟩ := Word.decode_eq_some_iff.1 hi
  cases c with
  | isByte x b | notByte x b | same x y | differ x y =>
      obtain ⟨rfl, rfl⟩ := hfits
      simp only [skips, hgroup, Instruction.group, Condition.group, holds]
  | held x | free x =>
      obtain ⟨hn, rfl⟩ := hfits
      simp [skips, hgroup, Instruction.group, Condition.group, holds, hn]

theorem destination_of_skip {c : Condition} (hi : w.decode = some (.skip c)) :
    m.destination w = if m.holds c then (m.pc + 4) % 4096 else (m.pc + 2) % 4096 := by
  rw [destination, holds_eq_skips hi]
  have hgroup := Word.group_of_decode hi
  cases c <;> simp only [hgroup, Instruction.group, Condition.group]

/-- By the digits of the word, instruction by instruction. -/
theorem follow_fetched (hpc : 0 ≤ m.pc ∧ m.pc < 4096) {i : Instruction} (hi : w.decode = some i) :
    m.fetched.follow i = m.destination w := by
  obtain ⟨hgroup, hfits⟩ := Word.decode_eq_some_iff.1 hi
  cases i with
  | skip c =>
      have hholds : m.fetched.holds c = m.holds c := by cases c <;> rfl
      have htwice : ((m.pc + 2) % 4096 + 2) % 4096 = (m.pc + 4) % 4096 := by omega
      rw [destination_of_skip hi, ← hholds, ← htwice]
      rfl
  | awaitKey x =>
      have hback : ((m.pc + 2) % 4096 - 2) % 4096 = m.pc := by omega
      have hfollow : m.fetched.follow (.awaitKey x) =
          if m.keypad.Released then m.pc else (m.pc + 2) % 4096 := congrArg (ite _ · _) hback
      simp only [hfollow, destination, skips, hgroup, Instruction.group, hfits.1, true_and]
      rfl
  | clear | ret =>
      have hn : w.n.val = _ := hfits
      simp only [destination, skips, hgroup, Instruction.group, hn]
      rfl
  | jump target | call target | jumpOffset target =>
      obtain rfl : w.nnn = target := hfits
      simp only [destination, skips, hgroup, Instruction.group]
      rfl
  | readDelay x | setDelay x | setSound x | advance x | glyph x | decimal x | dump x | fill x =>
      simp only [destination, skips, hgroup, Instruction.group, hfits.1]
      rfl
  | _ =>
      simp only [destination, skips, hgroup, Instruction.group]
      rfl

end

/-! ## Steps -/

theorem exists_step_of_decode {m : Machine} {i : Instruction} (hpc : 0 ≤ m.pc ∧ m.pc < 4096)
    (hi : m.word.decode = some i) : ∃ next, m.step = .ok next ∧ next.pc = m.destination m.word :=
  ⟨_, step_of_decode rfl hi, (pc_apply _ i).trans (follow_fetched hpc hi)⟩

end Machine

/-- Two words that skip under opposite conditions on the same operands.  The digits that take no
part in decoding may differ. -/
inductive Word.Opposite (w w' : Word) : Prop
  | byte : w.group = 0x3 → w'.group = 0x4 → w'.x = w.x → w'.kk = w.kk → Opposite w w'
  | register : w.group = 0x5 → w'.group = 0x9 → w'.x = w.x → w'.y = w.y → Opposite w w'
  | key : w.group = 0xE → w.n.val = 0xE → w'.group = 0xE → w'.n.val = 0x1 → w'.x = w.x →
      Opposite w w'

/-- Whatever the machine holds. -/
theorem Word.Opposite.conditions {w w' : Word} (h : w.Opposite w') :
    ∃ c c', w.decode = some (.skip c) ∧ w'.decode = some (.skip c') ∧
      ∀ m : Machine, m.holds c' = !m.holds c := by
  cases h with
  | byte hgroup hgroup' hx hkk =>
      exact ⟨.isByte w.x w.kk, .notByte w.x w.kk, decode_eq_some_iff.2 ⟨hgroup, rfl, rfl⟩,
        decode_eq_some_iff.2 ⟨hgroup', hx, hkk⟩, fun _ => rfl⟩
  | register hgroup hgroup' hx hy =>
      exact ⟨.same w.x w.y, .differ w.x w.y, decode_eq_some_iff.2 ⟨hgroup, rfl, rfl⟩,
        decode_eq_some_iff.2 ⟨hgroup', hx, hy⟩, fun _ => rfl⟩
  | key hgroup hn hgroup' hn' hx =>
      exact ⟨.held w.x, .free w.x, decode_eq_some_iff.2 ⟨hgroup, hn, rfl⟩,
        decode_eq_some_iff.2 ⟨hgroup', hn', hx⟩, fun _ => rfl⟩

namespace Machine

/-- A step that does not fault leads where the table says, and it faults on words without an
instruction only.  Put two words with opposite conditions at the program counter of one machine:
one of them skips and the other does not. -/
theorem pc_of_step {m : Machine} (hm : m.WellFormed) :
    (∀ next, m.step = .ok next → next.pc = m.destination m.word) ∧
    (m.word.decode ≠ none → ∃ next, m.step = .ok next) ∧
    ∀ memory, m.word.Opposite { m with memory }.word →
      ∃ next next', m.step = .ok next ∧ { m with memory }.step = .ok next' ∧
        (next.pc = (m.pc + 4) % 4096 ∧ next'.pc = (m.pc + 2) % 4096 ∨
          next.pc = (m.pc + 2) % 4096 ∧ next'.pc = (m.pc + 4) % 4096) := by
  refine ⟨?_, ?_, ?_⟩
  · intro next hstep
    obtain ⟨i, hi, rfl⟩ := step_eq_ok_iff.1 hstep
    rw [pc_apply, follow_fetched hm.pc hi]
  · intro hassigned
    obtain ⟨i, hi⟩ := Option.ne_none_iff_exists'.1 hassigned
    exact ⟨_, step_of_decode rfl hi⟩
  · intro memory hopposite
    obtain ⟨c, c', hi, hi', hnot⟩ := hopposite.conditions
    obtain ⟨next, hstep, hpc⟩ := exists_step_of_decode hm.pc hi
    obtain ⟨next', hstep', hpc'⟩ := exists_step_of_decode (m := { m with memory }) hm.pc hi'
    have hother : { m with memory }.holds c' = !m.holds c := (hnot _).trans (by cases c <;> rfl)
    rw [destination_of_skip hi] at hpc
    rw [destination_of_skip hi', hother] at hpc'
    refine ⟨next, next', hstep, hstep', ?_⟩
    cases hholds : m.holds c with
    | true =>
        rw [hholds] at hpc hpc'
        exact .inl ⟨hpc, hpc'⟩
    | false =>
        rw [hholds] at hpc hpc'
        exact .inr ⟨hpc, hpc'⟩

/-- The word lies across the end of memory: its high byte is in the last cell, its low byte in the
first. -/
def straddling (high : Byte) : Machine :=
  { blank (.seeded 7) with
    registers := (Vector.replicate 16 0).set 5 0x42
    memory := (Memory.zero.set 4095 high).set 0 0x42
    pc := 4095 }

theorem word_straddling (high : Byte) : (straddling high).word = .ofBytes high 0x42 := by
  have hlast : (straddling high).memory.read 4095 = high := by
    rw [straddling, Memory.read_set, Memory.read_set]
    rfl
  have hfirst : (straddling high).memory.read 4096 = 0x42 := by
    rw [straddling, Memory.read_set]
    rfl
  show Word.ofBytes ((straddling high).memory.read 4095) ((straddling high).memory.read 4096) = _
  rw [hlast, hfirst]

theorem wellFormed_straddling (high : Byte) : (straddling high).WellFormed :=
  (((wellFormed_blank _).withRegisters _).withMemory _).withPc (by decide)

theorem pc_of_step_straddling :
    (straddling 0x35).WellFormed ∧
      (∃ next, (straddling 0x35).step = .ok next ∧ next.pc = 3) ∧
      ∃ next, { straddling 0x35 with memory := (straddling 0x45).memory }.step = .ok next ∧
        next.pc = 1 := by
  have hm := wellFormed_straddling 0x35
  have hw : (straddling 0x35).word = 0x3542 := word_straddling 0x35
  have hw' : { straddling 0x35 with memory := (straddling 0x45).memory }.word = 0x4542 :=
    word_straddling 0x45
  have hopposite : (straddling 0x35).word.Opposite
      { straddling 0x35 with memory := (straddling 0x45).memory }.word := by
    rw [hw, hw']
    exact .byte (by decide) (by decide) (by decide) (by decide)
  obtain ⟨hpc, -, hone⟩ := pc_of_step hm
  obtain ⟨next, next', hstep, hstep', hskip⟩ := hone _ hopposite
  have hthree : next.pc = 3 := by
    rw [hpc next hstep, hw]
    decide
  refine ⟨hm, ⟨next, hstep, hthree⟩, next', hstep', ?_⟩
  rcases hskip with ⟨-, hnext'⟩ | ⟨hnext, -⟩
  · exact hnext'
  · cases hthree.symm.trans hnext

end Machine

end ChipEight
