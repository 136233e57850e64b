/-
# `ChipEight.Proofs.CallStack` — calls and returns over a run

The stack is a ring of sixteen slots: a call writes the slot that the stack pointer
names and moves on, a return moves back and reads, and neither checks anything.  So
a slot holds the return address of the last call that used it, however long ago, and
a frame is safe under fifteen more calls than returns: the sixteenth overwrites it.

Everything is said about the states `m.after i` along a run that does not fault.

**Proved here.**

    the stack pointer counts calls and returns modulo 16          (`sp_after`)
    a slot keeps its entry until a call uses it                   (`slot_kept`)
    a return goes behind the last call that used its slot, or to
    what the slot held before the run                             (`pc_of_last_call`, `pc_of_no_call`)
    it goes behind its own call while that frame is safe          (`resume_of_matching`)
-/
import ChipEight.Proofs.History
import ChipEight.Proofs.RomImage
import ChipEight.Proofs.Words

namespace ChipEight.Machine

/-! ## Words that use the stack -/

/-- The word at the program counter is a call. -/
def atCall (m : Machine) : Bool := m.word.group == 0x2

/-- The word at the program counter is a return. -/
def atReturn (m : Machine) : Bool := m.word.group == 0x0 && m.word.n.val == 0xE

theorem atCall_iff (m : Machine) :
    m.atCall = true ↔ ∃ target, m.word.decode = some (.call target) := by
  simp only [Word.decode_eq_call_iff, atCall, beq_iff_eq, exists_and_left, exists_eq', and_true]

theorem atReturn_iff (m : Machine) : m.atReturn = true ↔ m.word.decode = some .ret := by
  simp only [Word.decode_eq_ret_iff, atReturn, Bool.and_eq_true, beq_iff_eq]

theorem not_atReturn_of_atCall {m : Machine} (h : m.atCall = true) : m.atReturn = false := by
  have hgroup : m.word.group = 0x2 := beq_iff_eq.1 h
  rw [atReturn, hgroup]
  rfl

section

variable {m next : Machine} (h : m.step = .ok next)
include h

theorem step_at_call (hcall : m.atCall = true) :
    next.sp = (m.sp + 1) % 16 ∧ ∀ slot : Fin 16,
      next.stack.get slot =
        if m.sp % 16 = slot.val then (m.pc + 2) % 4096 else m.stack.get slot := by
  obtain ⟨i, hi, rfl⟩ := step_eq_ok_iff.1 h
  obtain ⟨target, htarget⟩ := (atCall_iff m).1 hcall
  rw [htarget] at hi
  cases hi
  refine ⟨rfl, fun slot => ?_⟩
  have hval : ((residue 16 m.sp).val : Int) = m.sp % 16 := residue_val 16 m.sp
  have hiff : (residue 16 m.sp).val = slot.val ↔ m.sp % 16 = slot.val := by omega
  show (m.stack.set (residue 16 m.sp) ((m.pc + 2) % 4096) (residue 16 m.sp).isLt)[slot.val] = _
  rw [Vector.getElem_set]
  simp only [hiff]
  rfl

theorem step_at_return (hret : m.atReturn = true) :
    next.sp = (m.sp - 1) % 16 ∧ next.stack = m.stack ∧
      ∀ slot : Fin 16, next.sp = slot.val → next.pc = m.stack.get slot := by
  obtain ⟨i, hi, rfl⟩ := step_eq_ok_iff.1 h
  rw [(atReturn_iff m).1 hret] at hi
  cases hi
  refine ⟨residue_val 16 _, rfl, ?_⟩
  intro slot hslot
  have heq : residue 16 (m.sp - 1) = slot := Fin.ext (Int.ofNat_inj.1 hslot)
  rw [← heq]
  rfl

omit h in
/-- No other instruction touches the stack. -/
theorem apply_stack (m : Machine) {i : Instruction} (hcall : ∀ target, i ≠ .call target)
    (hret : i ≠ .ret) : (m.apply i).sp = m.sp ∧ (m.apply i).stack = m.stack := by
  cases i with
  | ret => exact absurd rfl hret
  | call target => exact absurd rfl (hcall target)
  | skip c =>
      rw [apply]
      split
      · exact ⟨rfl, rfl⟩
      · exact ⟨rfl, rfl⟩
  | combine o x y =>
      simp only [apply, combineInto]
      split
      · exact ⟨rfl, rfl⟩
      · exact ⟨rfl, rfl⟩
  | awaitKey x =>
      rw [apply, awaitKeyInto]
      split
      · exact ⟨rfl, rfl⟩
      · exact ⟨rfl, rfl⟩
  | fill x =>
      rw [apply, fillUpTo]
      exact ⟨rfl, rfl⟩
  | _ => exact ⟨rfl, rfl⟩

theorem step_elsewhere (hcall : m.atCall = false) (hret : m.atReturn = false) :
    next.sp = m.sp ∧ next.stack = m.stack := by
  obtain ⟨i, hi, rfl⟩ := step_eq_ok_iff.1 h
  refine apply_stack m.fetched ?_ ?_
  · rintro target rfl
    rw [(atCall_iff m).2 ⟨target, hi⟩] at hcall
    cases hcall
  · rintro rfl
    rw [(atReturn_iff m).2 hi] at hret
    cases hret

/-- By how much the word at the program counter moves the stack pointer. -/
def stackMove (m : Machine) : Int := if m.atCall then 1 else if m.atReturn then -1 else 0

theorem sp_step (hm : m.WellFormed) : next.sp = (m.sp + m.stackMove) % 16 := by
  rw [stackMove]
  split
  · next hcall => exact (step_at_call h hcall).1
  · next hcall =>
      split
      · next hret => exact (step_at_return h hret).1
      · next hret =>
          have hsp := hm.sp
          rw [(step_elsewhere h (eq_false_of_ne_true hcall) (eq_false_of_ne_true hret)).1]
          omega

/-- A step changes the entry of a slot only if it is a call made with the stack pointer there. -/
theorem slot_step (hm : m.WellFormed) {slot : Fin 16}
    (hslot : m.atCall = true → m.sp ≠ slot.val) : next.stack.get slot = m.stack.get slot := by
  cases hcall : m.atCall with
  | true =>
      have hne : ¬ m.sp % 16 = slot.val := by
        have hsp := hm.sp
        have hdiffer := hslot hcall
        omega
      rw [(step_at_call h hcall).2 slot, if_neg hne]
  | false =>
      cases hret : m.atReturn with
      | true => rw [(step_at_return h hret).2.1]
      | false => rw [(step_elsewhere h hcall hret).2]

end

theorem WellFormed.exists_slot {m : Machine} (hm : m.WellFormed) :
    ∃ slot : Fin 16, m.sp = slot.val := by
  refine ⟨residue 16 m.sp, ?_⟩
  have hval := residue_val 16 m.sp
  have hsp := hm.sp
  omega

/-! ## Counting along a run -/

/-- How many of the steps `a`, ..., `b - 1` are calls. -/
def calls (m : Machine) (a b : Nat) : Nat :=
  (List.range' a (b - a)).countP fun i => (m.after i).atCall

/-- How many of the steps `a`, ..., `b - 1` are returns. -/
def returns (m : Machine) (a b : Nat) : Nat :=
  (List.range' a (b - a)).countP fun i => (m.after i).atReturn

theorem countP_range'_succ (p : Nat → Bool) {a b : Nat} (h : a ≤ b) :
    (List.range' a (b + 1 - a)).countP p =
      (List.range' a (b - a)).countP p + if p b then 1 else 0 := by
  have hb : a + 1 * (b - a) = b := by omega
  rw [Nat.succ_sub h, List.range'_concat, List.countP_append, hb, List.countP_singleton]

/-- How many more calls than returns there are among the steps `a`, ..., `b - 1`. -/
def depth (m : Machine) (a b : Nat) : Int := m.calls a b - m.returns a b

theorem depth_self (m : Machine) (a : Nat) : m.depth a a = 0 := by
  simp only [depth, calls, returns, Nat.sub_self, List.range'_zero, List.countP_nil]
  rfl

theorem depth_succ (m : Machine) {a b : Nat} (h : a ≤ b) :
    m.depth a (b + 1) = m.depth a b + (m.after b).stackMove := by
  simp only [depth, calls, returns, countP_range'_succ _ h, stackMove]
  cases hcall : (m.after b).atCall with
  | true =>
      rw [not_atReturn_of_atCall hcall]
      simp
      omega
  | false =>
      cases (m.after b).atReturn <;> simp
      omega

section

variable {m last : Machine} (hm : m.WellFormed) {n : Nat} (hrun : m.steps n = .ok last)
include hm hrun

/-- The stack pointer counts, by induction on the number of steps. -/
theorem sp_after {a b : Nat} (hab : a ≤ b) (hb : b ≤ n) :
    (m.after b).sp = ((m.after a).sp + m.depth a b) % 16 := by
  obtain ⟨d, rfl⟩ := Nat.exists_eq_add_of_le hab
  induction d with
  | zero =>
      have hsp := (hm.after a).sp
      rw [Nat.add_zero, depth_self]
      omega
  | succ d ih =>
      have hstep : (m.after (a + d)).step = .ok (m.after (a + d + 1)) := step_after hrun hb
      have hnext := sp_step hstep (hm.after (a + d))
      rw [ih (Nat.le_add_right a d) (Nat.le_of_lt hb)] at hnext
      rw [← Nat.add_assoc, depth_succ m (Nat.le_add_right a d), hnext]
      omega

/-- Until a call is made with the stack pointer there, a slot keeps its entry. -/
theorem slot_kept {slot : Fin 16} {a b : Nat} (hab : a ≤ b) (hb : b ≤ n)
    (hcalls : ∀ k, a ≤ k → k < b → (m.after k).atCall = true → (m.after k).sp ≠ slot.val) :
    (m.after b).stack.get slot = (m.after a).stack.get slot := by
  obtain ⟨d, rfl⟩ := Nat.exists_eq_add_of_le hab
  induction d with
  | zero => rfl
  | succ d ih =>
      have hstep : (m.after (a + d)).step = .ok (m.after (a + d + 1)) := step_after hrun hb
      have hlast := hcalls (a + d) (Nat.le_add_right a d) (Nat.lt_succ_self _)
      calc (m.after (a + d + 1)).stack.get slot
          = (m.after (a + d)).stack.get slot := slot_step hstep (hm.after _) hlast
        _ = (m.after a).stack.get slot :=
            ih (Nat.le_add_right a d) (Nat.le_of_lt hb) fun k hak hk =>
              hcalls k hak (Nat.lt_succ_of_lt hk)

/-! ## Returns -/

section

variable {j : Nat} (hj : j < n) (hret : (m.after j).atReturn = true) {slot : Fin 16}
  (hslot : (m.after (j + 1)).sp = slot.val)
include hj hret hslot

/-- A return goes behind the last call that was made with the stack pointer where the return
leaves it. -/
theorem pc_of_last_call {i : Nat} (hij : i < j) (hcall : (m.after i).atCall = true)
    (hsp : (m.after i).sp = slot.val)
    (hlast : ∀ k, i < k → k < j → (m.after k).atCall = true → (m.after k).sp ≠ slot.val) :
    (m.after (j + 1)).pc = ((m.after i).pc + 2) % 4096 := by
  have hi : (m.after i).sp % 16 = slot.val := by
    have hlt := slot.isLt
    omega
  have hwritten : (m.after (i + 1)).stack.get slot = ((m.after i).pc + 2) % 4096 := by
    rw [(step_at_call (step_after hrun (Nat.lt_trans hij hj)) hcall).2 slot, if_pos hi]
  calc (m.after (j + 1)).pc
      = (m.after j).stack.get slot := (step_at_return (step_after hrun hj) hret).2.2 slot hslot
    _ = (m.after (i + 1)).stack.get slot := slot_kept hm hrun hij (Nat.le_of_lt hj) hlast
    _ = ((m.after i).pc + 2) % 4096 := hwritten

/-- Without such a call it goes to what the slot held before the run. -/
theorem pc_of_no_call
    (hnone : ∀ i, i < j → (m.after i).atCall = true → (m.after i).sp ≠ slot.val) :
    (m.after (j + 1)).pc = m.stack.get slot := by
  calc (m.after (j + 1)).pc
      = (m.after j).stack.get slot := (step_at_return (step_after hrun hj) hret).2.2 slot hslot
    _ = (m.after 0).stack.get slot :=
        slot_kept hm hrun (Nat.zero_le j) (Nat.le_of_lt hj) fun k _ hk => hnone k hk

end

/-- While a frame has at most fifteen frames on top of it, no call uses its slot. -/
theorem sp_ne_above {i k : Nat} (hik : i < k) (hk : k < n) (hcalli : (m.after i).atCall = true)
    (hcallk : (m.after k).atCall = true) (hlow : 0 ≤ m.depth (i + 1) k)
    (hhigh : m.depth (i + 1) (k + 1) ≤ 15) : (m.after k).sp ≠ (m.after i).sp := by
  have hsp := (hm.after i).sp
  have hfirst := (step_at_call (step_after hrun (Nat.lt_trans hik hk)) hcalli).1
  have hcount : (m.after k).sp = ((m.after (i + 1)).sp + m.depth (i + 1) k) % 16 :=
    sp_after hm hrun hik (Nat.le_of_lt hk)
  have hinner : m.depth (i + 1) (k + 1) = m.depth (i + 1) k + (m.after k).stackMove :=
    depth_succ m hik
  rw [stackMove, if_pos hcallk] at hinner
  rw [hfirst] at hcount
  omega

/-- A return that ends a frame goes behind the call that began it, and leaves the stack pointer
where it was. -/
theorem resume_of_matching {i j : Nat} (hij : i < j) (hj : j < n)
    (hcall : (m.after i).atCall = true) (hret : (m.after j).atReturn = true)
    (hbalanced : m.depth (i + 1) j = 0)
    (hsafe : ∀ k, i < k → k ≤ j → 0 ≤ m.depth (i + 1) k ∧ m.depth (i + 1) k ≤ 15) :
    (m.after (j + 1)).pc = ((m.after i).pc + 2) % 4096 ∧ (m.after (j + 1)).sp = (m.after i).sp := by
  obtain ⟨slot, hslot⟩ := (hm.after i).exists_slot
  have hfirst := (step_at_call (step_after hrun (Nat.lt_trans hij hj)) hcall).1
  have hcount : (m.after j).sp = ((m.after (i + 1)).sp + m.depth (i + 1) j) % 16 :=
    sp_after hm hrun hij (Nat.le_of_lt hj)
  have hlast := (step_at_return (step_after hrun hj) hret).1
  have hsp : (m.after (j + 1)).sp = (m.after i).sp := by
    have hlt := slot.isLt
    rw [hfirst, hbalanced] at hcount
    omega
  refine ⟨?_, hsp⟩
  refine pc_of_last_call hm hrun hj hret (hsp.trans hslot) hij hcall hslot ?_
  intro k hik hkj hcallk
  have hne := sp_ne_above hm hrun hik (Nat.lt_trans hkj hj) hcall hcallk
    (hsafe k hik (Nat.le_of_lt hkj)).1 (hsafe (k + 1) (Nat.lt_succ_of_lt hik) hkj).2
  rwa [hslot] at hne

end

/-- Over every run of successful steps from a machine in range: the stack pointer has moved by calls
less returns, modulo 16; each return goes behind the last call made with the stack pointer where the
return leaves it, or to what that slot held at the start; and a return whose calls and returns since
some call are balanced, at no point with fewer calls than returns or more than fifteen calls more,
goes behind that call, with the stack pointer it had. -/
theorem call_stack_discipline {m last : Machine} (hm : m.WellFormed) {n : Nat}
    (hrun : m.steps n = .ok last) :
    last.sp = (m.sp + m.calls 0 n - m.returns 0 n) % 16 ∧
    (∀ j, j < n → (m.after j).atReturn = true →
      ∃ slot : Fin 16, (m.after (j + 1)).sp = slot.val ∧
        (∀ i, i < j → (m.after i).atCall = true → (m.after i).sp = slot.val →
          (∀ k, i < k → k < j → (m.after k).atCall = true → (m.after k).sp ≠ slot.val) →
          (m.after (j + 1)).pc = ((m.after i).pc + 2) % 4096) ∧
        ((∀ i, i < j → (m.after i).atCall = true → (m.after i).sp ≠ slot.val) →
          (m.after (j + 1)).pc = m.stack.get slot)) ∧
    (∀ i j, i < j → j < n → (m.after i).atCall = true → (m.after j).atReturn = true →
      m.calls (i + 1) j = m.returns (i + 1) j →
      (∀ k, i < k → k ≤ j → m.returns (i + 1) k ≤ m.calls (i + 1) k ∧
        m.calls (i + 1) k ≤ m.returns (i + 1) k + 15) →
      (m.after (j + 1)).pc = ((m.after i).pc + 2) % 4096 ∧
        (m.after (j + 1)).sp = (m.after i).sp) := by
  refine ⟨?_, ?_, ?_⟩
  · have hcount := sp_after hm hrun (Nat.zero_le n) (Nat.le_refl n)
    rw [after_eq_last hrun, after_zero, depth] at hcount
    rw [hcount]
    congr 1
    omega
  · intro j hj hret
    obtain ⟨slot, hslot⟩ := (hm.after (j + 1)).exists_slot
    refine ⟨slot, hslot, ?_, ?_⟩
    · intro i hij hcall hsp hlast
      exact pc_of_last_call hm hrun hj hret hslot hij hcall hsp hlast
    · intro hnone
      exact pc_of_no_call hm hrun hj hret hslot hnone
  · intro i j hij hj hcall hret hbalanced hsafe
    refine resume_of_matching hm hrun hij hj hcall hret ?_ ?_
    · rw [depth, hbalanced]
      omega
    · intro k hik hkj
      have hk := hsafe k hik hkj
      rw [depth]
      omega

/-- A call, the return from it, and a return with nothing to return from. -/
def returningRom : List Byte := [0x22, 0x06, 0x00, 0xEE, 0x00, 0x00, 0x00, 0xEE]

/-- The call is made with the stack pointer at the last slot, so that it wraps around. -/
def lastSlotCall : Machine := { withRom returningRom (.repeating []) with sp := 15 }

theorem wellFormed_lastSlotCall : lastSlotCall.WellFormed := by
  have h := wellFormed_withRom returningRom (.repeating [])
  have hsp : 0 ≤ lastSlotCall.sp ∧ lastSlotCall.sp < 16 := by decide
  exact ⟨h.stack, h.index, h.pc, hsp, h.delay, h.sound⟩

theorem lastSlotCall_steps :
    ∃ m₁ m₂ m₃, lastSlotCall.steps 1 = .ok m₁ ∧ lastSlotCall.steps 2 = .ok m₂ ∧
      lastSlotCall.steps 3 = .ok m₃ ∧ lastSlotCall.atCall = true ∧ m₁.atCall = false ∧
      m₁.atReturn = true ∧ m₂.atReturn = true ∧ m₃.sp = 14 := by
  let m₁ := lastSlotCall.fetched.apply (.call 0x206)
  let m₂ := m₁.fetched.apply .ret
  let m₃ := m₂.fetched.apply .ret
  have hrom : returningRom.length ≤ romCapacity := by decide
  have p₀ : lastSlotCall.pc = romStart + (0 : Nat) := rfl
  have p₁ : m₁.pc = romStart + (6 : Nat) := rfl
  have p₂ : m₂.pc = romStart + (2 : Nat) := rfl
  have e₀ : lastSlotCall.memory = (withRom returningRom (.repeating [])).memory := rfl
  have e₁ : m₁.memory = (withRom returningRom (.repeating [])).memory := rfl
  have e₂ : m₂.memory = (withRom returningRom (.repeating [])).memory := rfl
  have w₀ : lastSlotCall.word = 0x2206 := word_withRom e₀ hrom p₀ (by decide) (by decide)
  have w₁ : m₁.word = 0x00EE := word_withRom e₁ hrom p₁ (by decide) (by decide)
  have w₂ : m₂.word = 0x00EE := word_withRom e₂ hrom p₂ (by decide) (by decide)
  have h₀ : lastSlotCall.step = .ok m₁ := step_of_decode w₀ rfl
  have h₁ : m₁.step = .ok m₂ := step_of_decode w₁ rfl
  have h₂ : m₂.step = .ok m₃ := step_of_decode w₂ rfl
  have s₁ : lastSlotCall.steps 1 = .ok m₁ := steps_succ_of_ok h₀ 0
  have s₂ : lastSlotCall.steps 2 = .ok m₂ := (steps_succ_of_ok h₀ 1).trans (steps_succ_of_ok h₁ 0)
  have s₃ : lastSlotCall.steps 3 = .ok m₃ := by
    rw [steps_succ_of_ok h₀, steps_succ_of_ok h₁]
    exact steps_succ_of_ok h₂ 0
  have c₀ : lastSlotCall.atCall = true := by
    rw [atCall, w₀]
    rfl
  have c₁ : m₁.atCall = false := by
    rw [atCall, w₁]
    rfl
  have r₁ : m₁.atReturn = true := by
    rw [atReturn, w₁]
    rfl
  have r₂ : m₂.atReturn = true := by
    rw [atReturn, w₂]
    rfl
  exact ⟨m₁, m₂, m₃, s₁, s₂, s₃, c₀, c₁, r₁, r₂, rfl⟩

theorem call_stack_discipline_wrapping :
    lastSlotCall.WellFormed ∧ ∃ last, lastSlotCall.steps 3 = .ok last ∧ last.sp = 14 ∧
      (lastSlotCall.after 2).pc = 0x202 ∧ (lastSlotCall.after 2).sp = 15 ∧
      (lastSlotCall.after 3).pc = 0 := by
  obtain ⟨m₁, m₂, m₃, s₁, s₂, s₃, c₀, c₁, r₁, r₂, hlast⟩ := lastSlotCall_steps
  obtain ⟨-, hreturns, hmatching⟩ := call_stack_discipline wellFormed_lastSlotCall s₃
  rw [← after_eq_last s₁] at c₁ r₁
  rw [← after_eq_last s₂] at r₂
  have hreturn : (lastSlotCall.after 2).pc = 0x202 ∧ (lastSlotCall.after 2).sp = 15 := by
    refine hmatching 0 1 (by decide) (by decide) c₀ r₁ rfl ?_
    intro k hk hk1
    obtain rfl : k = 1 := by omega
    exact ⟨Nat.le_refl 0, Nat.zero_le _⟩
  obtain ⟨slot, hslot, -, hnone⟩ := hreturns 2 (by decide) r₂
  rw [after_eq_last s₃, hlast] at hslot
  have hpc : (lastSlotCall.after 3).pc = lastSlotCall.stack.get slot := by
    refine hnone ?_
    intro i hi hcall
    rw [← hslot]
    have hi01 : i = 0 ∨ i = 1 := by omega
    rcases hi01 with rfl | rfl
    · decide
    · rw [c₁] at hcall
      cases hcall
  refine ⟨wellFormed_lastSlotCall, m₃, s₃, hlast, hreturn.1, hreturn.2, ?_⟩
  rw [hpc]
  exact Vector.getElem_replicate _

end ChipEight.Machine
