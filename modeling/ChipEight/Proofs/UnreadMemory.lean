/-
# `ChipEight.Proofs.UnreadMemory` — memory that a run never reads

A run looks at memory in three ways: it fetches words, it draws sprites and it loads
registers.  A cell that it does not look at before writing it may hold anything, so two
machines that differ in such cells only go through the same run.

**Proved here.**

    cells that a run does not write keep what they held        (`read_after_of_not_written`)
    machines in range that differ in cells which the run of
    the first does not read before it has written them run
    in the same way, and differ at the end only in those of
    the cells that were never written                          (`steps_of_unread`)
-/
import ChipEight.Proofs.Agreement

namespace ChipEight.Machine

/-- Two machines that are equal but for the memory cells in `cells`. -/
structure EqualBut (cells : Address → Prop) (m m' : Machine) : Prop where
  memory : ∀ addr : Int, ¬ cells (residue 4096 addr) → m.memory.read addr = m'.memory.read addr
  rest : { m with memory := m'.memory } = m'

/-- The memory cells in `cells`, and no other component. -/
def justCells (cells : Address → Prop) : Component → Prop
  | .cell a => cells a
  | _ => False

theorem EqualBut.agree {cells : Address → Prop} {m m' : Machine} (h : m.EqualBut cells m') :
    Agree (justCells cells) m m' := by
  obtain ⟨hmemory, hrest⟩ := h
  rw [← hrest]
  exact ⟨rfl, hmemory, fun _ => rfl, fun _ => rfl, fun _ => rfl, rfl, rfl, rfl, fun _ => rfl,
    fun _ => rfl, fun _ => rfl⟩

/-- In range, machines that agree but for some cells are equal but for them. -/
theorem Agree.equalBut {hidden : Component → Prop} {cells : Address → Prop} {m m' : Machine}
    (h : Agree hidden m m') (hm : m.WellFormed) (hm' : m'.WellFormed)
    (hhidden : ∀ c, hidden c → justCells cells c) : m.EqualBut cells m' := by
  have hjust := h.mono hhidden
  obtain ⟨hstack, hindex, hpc, hsp⟩ := h.eq_in_range hm hm'
  refine ⟨fun addr hc => hjust.memory addr hc, ?_⟩
  show Machine.mk m.registers m'.memory m.stack m.keypad m.screen m.index m.pc m.sp m.delay m.sound
    m.source = m'
  rw [h.registers, hstack, hjust.keypad id, hjust.screen id, hindex, hpc, hsp, hjust.delay id,
    hjust.sound id, hjust.source id]

/-! ## Cells that are not written -/

theorem read_execute_of_not_stored {m : Machine} {w : Word} {addr : Int}
    (h : residue 4096 addr ∉ m.wordStores w) :
    (leftBy (m.execute w)).memory.read addr = m.memory.read addr := by
  rw [wordStores] at h
  rw [execute]
  cases hw : w.decode with
  | some i =>
      rw [hw] at h
      exact m.read_apply_of_not_stored i h
  | none => rfl

theorem read_step_of_not_stored {m : Machine} {addr : Int} (h : residue 4096 addr ∉ m.stepStores) :
    (leftBy m.step).memory.read addr = m.memory.read addr :=
  read_execute_of_not_stored (m := m.fetched) h

theorem read_after_of_not_written (n : Nat) {addr : Int} : ∀ {m : Machine},
    ¬ m.Written n (residue 4096 addr) → (m.after n).memory.read addr = m.memory.read addr := by
  induction n with
  | zero => exact fun _ => rfl
  | succ n ih =>
      intro m h
      have hfirst : residue 4096 addr ∉ m.stepStores := fun hmem =>
        h ⟨0, Nat.succ_pos n, m, rfl, hmem⟩
      have hone := read_step_of_not_stored hfirst
      cases hstep : m.step with
      | ok next =>
          have hrest : ¬ next.Written n (residue 4096 addr) := fun hw =>
            h ((written_succ_of_ok hstep).2 (.inr hw))
          rw [hstep] at hone
          rw [after, steps_succ_of_ok hstep]
          exact (ih hrest).trans hone
      | error halt =>
          rw [hstep] at hone
          rw [after, steps_succ_of_error hstep]
          exact hone

/-! ## Two runs -/

theorem EqualBut.stepStores {cells : Address → Prop} {m m' : Machine} (h : m.EqualBut cells m')
    (hword : m.word = m'.word) : m.stepStores = m'.stepStores := by
  have hindex : m.index = m'.index := by rw [← h.rest]
  rw [Machine.stepStores, Machine.stepStores, ← hword, wordStores, wordStores]
  cases m.word.decode with
  | some i => cases i <;> simp only [stores, hindex]
  | none => rfl

/-- How two runs stand after the same number of steps: both go on, or both have stopped at the
same word; the machines are equal but for `cells`. -/
def SameUpTo (cells : Address → Prop) (r r' : Except Halt Machine) : Prop :=
  (∃ mid mid', r = .ok mid ∧ r' = .ok mid' ∧ mid.EqualBut cells mid') ∨
  (∃ fault left left', r = .error ⟨fault, left⟩ ∧ r' = .error ⟨fault, left'⟩ ∧
    left.EqualBut cells left')

theorem justCells_of_unwritten {cells written : Address → Prop} {c : Component}
    (h : unwritten (justCells cells) written c) : justCells (fun a => cells a ∧ ¬ written a) c := by
  cases c with
  | cell a => exact h
  | _ => exact h

section

variable {cells : Address → Prop} {m m' : Machine} (h : m.EqualBut cells m') {n : Nat}
  (hunread : ∀ i, i < n → ∀ mid, m.steps i = .ok mid → ∀ a, cells a → .cell a ∈ mid.stepReads →
    m.Written i a)
include h hunread

theorem sameOutcome_of_unread {i : Nat} (hi : i ≤ n) :
    SameOutcome (unwritten (justCells cells) (m.Written i)) (m.steps i) (m'.steps i) := by
  refine h.agree.steps i ?_
  intro j hj mid hmid c hc hhidden
  cases c with
  | cell a => exact hhidden.2 (hunread j (Nat.lt_of_lt_of_le hj hi) mid hmid a hhidden.1 hc)
  | _ => exact hhidden

theorem sameUpTo_of_unread (hm : m.WellFormed) (hm' : m'.WellFormed) {i : Nat} (hi : i ≤ n) :
    SameUpTo (fun a => cells a ∧ ¬ m.Written i a) (m.steps i) (m'.steps i) := by
  have houtcome := sameOutcome_of_unread h hunread hi
  have hleft := hm.steps i
  have hleft' := hm'.steps i
  generalize m.steps i = r, m'.steps i = r' at houtcome hleft hleft'
  cases houtcome with
  | ok hagree =>
      exact .inl ⟨_, _, rfl, rfl, hagree.equalBut hleft hleft' fun _ => justCells_of_unwritten⟩
  | error fault hagree =>
      exact .inr ⟨fault, _, _, rfl, rfl,
        hagree.equalBut hleft hleft' fun _ => justCells_of_unwritten⟩

/-- A cell that may still differ is not one of the two that hold the word. -/
theorem word_of_unread {i : Nat} (hi : i < n) {mid mid' : Machine} (hmid : m.steps i = .ok mid)
    (hmid' : m'.steps i = .ok mid') : mid.word = mid'.word := by
  have houtcome := sameOutcome_of_unread h hunread (Nat.le_of_lt hi)
  rw [hmid, hmid'] at houtcome
  cases houtcome with
  | ok hagree =>
      refine hagree.word ?_
      intro a ha hhidden
      exact hhidden.2 (hunread i hi mid hmid a hhidden.1
        (List.mem_append_left _ (List.mem_map_of_mem ha)))

theorem written_of_unread (hm : m.WellFormed) (hm' : m'.WellFormed) {a : Address}
    (ha : m'.Written n a) : m.Written n a := by
  obtain ⟨k, hk, mid', hmid', hmem⟩ := ha
  rcases sameUpTo_of_unread h hunread hm hm' (Nat.le_of_lt hk) with
    ⟨mid, mid'', hmid, hmid'', hequal⟩ | ⟨_, _, _, -, hfault, -⟩
  · have heq : mid'' = mid' := Except.ok.inj (hmid''.symm.trans hmid')
    subst heq
    have hword := word_of_unread h hunread hk hmid hmid'
    rw [← hequal.stepStores hword] at hmem
    exact ⟨k, hk, mid, hmid, hmem⟩
  · rw [hfault] at hmid'
    cases hmid'

end

/-- Two machines in range are equal but for some memory cells, and `n` steps of the first read none
of them unless one of the steps before has written it.  Then after any number of these steps both
have executed the same words at the same addresses and go on, or both have stopped with the same
fault; and they are equal but for the cells that were not written, which hold what they held. -/
theorem steps_of_unread {cells : Address → Prop} {m m' : Machine} (hm : m.WellFormed)
    (hm' : m'.WellFormed) (h : m.EqualBut cells m') {n : Nat}
    (hunread : ∀ i, i < n → ∀ mid, m.steps i = .ok mid → ∀ a, cells a → .cell a ∈ mid.stepReads →
      m.Written i a) :
    (∀ i, i ≤ n → SameUpTo (fun a => cells a ∧ ¬ m.Written i a) (m.steps i) (m'.steps i)) ∧
    (∀ i, i < n → ∀ mid, m.steps i = .ok mid → ∃ mid', m'.steps i = .ok mid' ∧
      mid.pc = mid'.pc ∧ mid.word = mid'.word) ∧
    (∀ addr : Int, ¬ m.Written n (residue 4096 addr) →
      (m.after n).memory.read addr = m.memory.read addr ∧
        (m'.after n).memory.read addr = m'.memory.read addr) := by
  refine ⟨?_, ?_, ?_⟩
  · intro i hi
    exact sameUpTo_of_unread h hunread hm hm' hi
  · intro i hi mid hmid
    rcases sameUpTo_of_unread h hunread hm hm' (Nat.le_of_lt hi) with
      ⟨mid₁, mid', hmid₁, hmid', hequal⟩ | ⟨_, _, _, hfault, -, -⟩
    · obtain rfl : mid₁ = mid := Except.ok.inj (hmid₁.symm.trans hmid)
      refine ⟨mid', hmid', ?_, word_of_unread h hunread hi hmid hmid'⟩
      rw [← hequal.rest]
    · rw [hfault] at hmid
      cases hmid
  · intro addr hunwritten
    refine ⟨read_after_of_not_written n hunwritten, read_after_of_not_written n ?_⟩
    exact mt (written_of_unread h hunread hm hm') hunwritten

/-- Sets the index, writes register 0 there, loads it from there, and stops at an unassigned
word. -/
def scratchRom : List Byte := [0xA3, 0x00, 0xF0, 0x55, 0xF0, 0x65, 0x00, 0x01]

def scratchCells (a : Address) : Prop := a = 0x300 ∨ a = 0x301

def scratch : Machine := withRom scratchRom (.repeating [])

/-- The same machine with something left in two cells: the one that is written, and the next. -/
def usedScratch : Machine :=
  { scratch with memory := (scratch.memory.set 0x300 0xAB).set 0x301 0xCD }

theorem scratch_equalBut : scratch.EqualBut scratchCells usedScratch := by
  refine ⟨?_, rfl⟩
  intro addr haddr
  have hfirst : ¬ (0x300 : Int) % 4096 = addr % 4096 := by
    intro heq
    exact haddr (.inl ((residue_eq_residue_iff 4096 addr 0x300).2 heq.symm))
  have hsecond : ¬ (0x301 : Int) % 4096 = addr % 4096 := by
    intro heq
    exact haddr (.inr ((residue_eq_residue_iff 4096 addr 0x301).2 heq.symm))
  show _ = ((scratch.memory.set 0x300 0xAB).set 0x301 0xCD).read addr
  rw [Memory.read_set, if_neg hsecond, Memory.read_set, if_neg hfirst]

theorem scratch_steps :
    ∃ m₁ m₂ m₃ halt, scratch.steps 1 = .ok m₁ ∧ scratch.steps 2 = .ok m₂ ∧
      scratch.steps 3 = .ok m₃ ∧ scratch.steps 4 = .error halt ∧
      scratch.stepReads = [.cell 0x200, .cell 0x201] ∧ m₁.stepReads = [.cell 0x202, .cell 0x203] ∧
      m₂.stepReads = [.cell 0x204, .cell 0x205, .cell 0x300] ∧
      m₃.stepReads = [.cell 0x206, .cell 0x207] ∧
      scratch.stepStores = [] ∧ m₁.stepStores = [0x300] ∧ m₂.stepStores = [] ∧
      m₃.stepStores = [] := by
  let m₁ := scratch.fetched.apply (.point 0x300)
  let m₂ := m₁.fetched.apply (.dump 0)
  let m₃ := m₂.fetched.apply (.fill 0)
  have hrom : scratchRom.length ≤ romCapacity := by decide
  have e₀ : scratch.memory = (withRom scratchRom (.repeating [])).memory := rfl
  have e₁ : m₁.memory = (withRom scratchRom (.repeating [])).memory := rfl
  have p₂ : m₂.pc = 0x204 := rfl
  have p₃ : m₃.pc = 0x206 := rfl
  have w₀ : scratch.word = 0xA300 := word_withRom e₀ hrom (k := 0) rfl (by decide) (by decide)
  have w₁ : m₁.word = 0xF055 := word_withRom e₁ hrom (k := 2) rfl (by decide) (by decide)
  have h₀ : scratch.step = .ok m₁ := step_of_decode w₀ rfl
  have h₁ : m₁.step = .ok m₂ := step_of_decode w₁ rfl
  have t₁ : m₁.stepStores = [0x300] := by
    rw [stepStores, wordStores, w₁]
    rfl
  have kept₂ : ∀ addr : Int, residue 4096 addr ≠ 0x300 →
      m₂.memory.read addr = m₁.memory.read addr := by
    intro addr haddr
    have hkept : (leftBy m₁.step).memory.read addr = m₁.memory.read addr :=
      read_step_of_not_stored (by rwa [t₁, List.mem_singleton])
    rwa [h₁] at hkept
  have w₂ : m₂.word = 0xF065 := by
    rw [word, p₂, kept₂ _ (by decide), kept₂ _ (by decide)]
    exact word_withRom (m := { m₁ with pc := 0x204 }) e₁ hrom (k := 4) rfl (by decide) (by decide)
  have h₂ : m₂.step = .ok m₃ := step_of_decode w₂ rfl
  have t₂ : m₂.stepStores = [] := by
    rw [stepStores, wordStores, w₂]
    rfl
  have kept₃ : ∀ addr : Int, m₃.memory.read addr = m₂.memory.read addr := by
    intro addr
    have hkept : (leftBy m₂.step).memory.read addr = m₂.memory.read addr :=
      read_step_of_not_stored (t₂ ▸ List.not_mem_nil)
    rwa [h₂] at hkept
  have w₃ : m₃.word = 0x0001 := by
    rw [word, p₃, kept₃, kept₃, kept₂ _ (by decide), kept₂ _ (by decide)]
    exact word_withRom (m := { m₁ with pc := 0x206 }) e₁ hrom (k := 6) rfl (by decide) (by decide)
  have h₃ := step_of_unassigned w₃ rfl
  have s₁ : scratch.steps 1 = .ok m₁ := steps_succ_of_ok h₀ 0
  have s₂ : scratch.steps 2 = .ok m₂ := (steps_succ_of_ok h₀ 1).trans (steps_succ_of_ok h₁ 0)
  have s₃ : scratch.steps 3 = .ok m₃ :=
    (steps_succ_of_ok h₀ 2).trans ((steps_succ_of_ok h₁ 1).trans (steps_succ_of_ok h₂ 0))
  have s₄ := (steps_succ_of_ok h₀ 3).trans ((steps_succ_of_ok h₁ 2).trans
    ((steps_succ_of_ok h₂ 1).trans (steps_succ_of_error h₃ 0)))
  have r₀ : scratch.stepReads = [.cell 0x200, .cell 0x201] := by
    rw [stepReads, wordReads, w₀]
    rfl
  have r₁ : m₁.stepReads = [.cell 0x202, .cell 0x203] := by
    rw [stepReads, wordReads, w₁]
    rfl
  have r₂ : m₂.stepReads = [.cell 0x204, .cell 0x205, .cell 0x300] := by
    rw [stepReads, wordReads, w₂]
    rfl
  have r₃ : m₃.stepReads = [.cell 0x206, .cell 0x207] := by
    rw [stepReads, wordReads, w₃]
    rfl
  have t₀ : scratch.stepStores = [] := by
    rw [stepStores, wordStores, w₀]
    rfl
  have t₃ : m₃.stepStores = [] := by
    rw [stepStores, wordStores, w₃]
    rfl
  exact ⟨m₁, m₂, m₃, _, s₁, s₂, s₃, s₄, r₀, r₁, r₂, r₃, t₀, t₁, t₂, t₃⟩

theorem not_mem_of_scratchCells {a : Address} (ha : scratchCells a) {cs : List Component}
    (hfirst : .cell 0x300 ∉ cs) (hsecond : .cell 0x301 ∉ cs) : .cell a ∉ cs := by
  rcases ha with rfl | rfl
  · exact hfirst
  · exact hsecond

/-- The run reads one of the two cells, but only after it has written it. -/
theorem scratch_unread : ∀ i, i < 4 → ∀ mid, scratch.steps i = .ok mid → ∀ a, scratchCells a →
    .cell a ∈ mid.stepReads → scratch.Written i a := by
  obtain ⟨m₁, m₂, m₃, halt, s₁, s₂, s₃, s₄, r₀, r₁, r₂, r₃, t₀, t₁, t₂, t₃⟩ := scratch_steps
  intro i hi mid hmid a ha hmem
  obtain rfl | rfl | rfl | rfl : i = 0 ∨ i = 1 ∨ i = 2 ∨ i = 3 := by omega
  · obtain rfl : scratch = mid := Except.ok.inj hmid
    rw [r₀] at hmem
    exact absurd hmem (not_mem_of_scratchCells ha (by decide) (by decide))
  · obtain rfl : m₁ = mid := Except.ok.inj (s₁.symm.trans hmid)
    rw [r₁] at hmem
    exact absurd hmem (not_mem_of_scratchCells ha (by decide) (by decide))
  · obtain rfl : m₂ = mid := Except.ok.inj (s₂.symm.trans hmid)
    rw [r₂] at hmem
    rcases ha with rfl | rfl
    · exact ⟨1, by decide, m₁, s₁, t₁ ▸ List.mem_singleton_self _⟩
    · exact absurd hmem (by decide)
  · obtain rfl : m₃ = mid := Except.ok.inj (s₃.symm.trans hmid)
    rw [r₃] at hmem
    exact absurd hmem (not_mem_of_scratchCells ha (by decide) (by decide))

theorem scratch_not_written : ¬ scratch.Written 4 0x301 := by
  obtain ⟨m₁, m₂, m₃, halt, s₁, s₂, s₃, s₄, r₀, r₁, r₂, r₃, t₀, t₁, t₂, t₃⟩ := scratch_steps
  rintro ⟨k, hk, mid, hmid, hmem⟩
  obtain rfl | rfl | rfl | rfl : k = 0 ∨ k = 1 ∨ k = 2 ∨ k = 3 := by omega
  · obtain rfl : scratch = mid := Except.ok.inj hmid
    rw [t₀] at hmem
    cases hmem
  · obtain rfl : m₁ = mid := Except.ok.inj (s₁.symm.trans hmid)
    rw [t₁] at hmem
    exact absurd hmem (by decide)
  · obtain rfl : m₂ = mid := Except.ok.inj (s₂.symm.trans hmid)
    rw [t₂] at hmem
    cases hmem
  · obtain rfl : m₃ = mid := Except.ok.inj (s₃.symm.trans hmid)
    rw [t₃] at hmem
    cases hmem

theorem steps_of_unread_after_store :
    scratch.WellFormed ∧ usedScratch.WellFormed ∧ scratch.EqualBut scratchCells usedScratch ∧
      (∀ i, i < 4 → ∀ mid, scratch.steps i = .ok mid → ∀ a, scratchCells a →
        .cell a ∈ mid.stepReads → scratch.Written i a) ∧
      ∃ fault left left', scratch.steps 4 = .error ⟨fault, left⟩ ∧
        usedScratch.steps 4 = .error ⟨fault, left'⟩ ∧
        left.memory.read 0x300 = left'.memory.read 0x300 ∧ left'.memory.read 0x301 = 0xCD := by
  have hwf : scratch.WellFormed := wellFormed_withRom _ _
  have hwf' : usedScratch.WellFormed := hwf.withMemory _
  refine ⟨hwf, hwf', scratch_equalBut, scratch_unread, ?_⟩
  obtain ⟨hsame, -, hkept⟩ := steps_of_unread hwf hwf' scratch_equalBut scratch_unread
  obtain ⟨m₁, m₂, m₃, halt, s₁, s₂, s₃, s₄, r₀, r₁, r₂, r₃, t₀, t₁, t₂, t₃⟩ := scratch_steps
  rcases hsame 4 (Nat.le_refl 4) with
    ⟨_, _, hok, -, -⟩ | ⟨fault, left, left', hleft, hleft', hequal⟩
  · rw [s₄] at hok
    cases hok
  · refine ⟨fault, left, left', hleft, hleft', ?_, ?_⟩
    · refine hequal.memory 0x300 ?_
      rintro ⟨-, hnone⟩
      exact hnone ⟨1, by decide, m₁, s₁, t₁ ▸ List.mem_singleton_self _⟩
    · have hlast := (hkept 0x301 scratch_not_written).2
      rw [after, hleft'] at hlast
      refine hlast.trans ?_
      show ((scratch.memory.set 0x300 0xAB).set 0x301 0xCD).read 0x301 = 0xCD
      rw [Memory.read_set]
      rfl

end ChipEight.Machine
