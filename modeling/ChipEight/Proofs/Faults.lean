/-
# `ChipEight.Proofs.Faults` — what can go wrong when a word is executed

Execution goes through two levels of tables and through handlers that index
registers, stack, keypad, screen and memory by number.  On a state in range none of
those accesses fails: what goes wrong is that a word has no instruction, and nothing
else.  Which words those are is said here by their digits, without the tables.

**Proved here**, for every state in range and every word:

    execution fails exactly on an unassigned word, with its report, and
    leaves the state as it found it                        (`execute_fails_iff_unassigned`)
    both ways of executing run the resolved handler        (in the same theorem)
-/
import ChipEight.Proofs.Plain.Host

namespace ChipEight.Plain

/-- The words without an instruction: in the groups 0, 8 and E by their last digit, in group F by
their low byte. -/
def Unassigned (op : Nat) : Prop :=
  (op / 0x1000 = 0x0 ∧ op % 0x10 ∉ [0x0, 0xE]) ∨
  (op / 0x1000 = 0x8 ∧ op % 0x10 ∈ [0x8, 0x9, 0xA, 0xB, 0xC, 0xD, 0xF]) ∨
  (op / 0x1000 = 0xE ∧ op % 0x10 ∉ [0x1, 0xE]) ∨
  (op / 0x1000 = 0xF ∧
    op % 0x100 ∉ [0x07, 0x0A, 0x15, 0x18, 0x1E, 0x29, 0x33, 0x55, 0x65])

instance (op : Nat) : Decidable (Unassigned op) := by
  unfold Unassigned
  infer_instance

/-! ## Unassigned words and their handler -/

theorem unassigned_digit {k : Nat} (hk : k < 16) :
    k ∈ [0x8, 0x9, 0xA, 0xB, 0xC, 0xD, 0xF] ↔ k ∉ Word.assignedDigits 0x8 := by
  simp only [Word.assignedDigits, List.mem_cons, List.not_mem_nil, or_false]
  omega

theorem unassigned_iff {op : Nat} (h : op < 0x10000) :
    Unassigned op ↔ Word.decode (BitVec.ofNat 16 op) = none := by
  have hop := toNat_ofNat_word h
  have hn : (Word.n (BitVec.ofNat 16 op)).val = op % 0x10 := congrArg (· % 16) hop
  have hkk : (Word.kk (BitVec.ofNat 16 op)).toNat = op % 0x100 := by
    rw [Word.kk, hop, BitVec.toNat_ofNat]
  rw [Word.decode_eq_none_iff, hkk, hn, Word.group, hop, Unassigned,
    unassigned_digit (Nat.mod_lt op (by decide))]
  rfl

/-- No instruction is named like the handler of the unassigned words. -/
theorem pattern_ne (i : Instruction) : i.pattern ≠ unassigned.pattern := by
  cases i with
  | skip c => cases c <;> simp [Instruction.pattern, Condition.pattern, unassigned]
  | combine o x y => cases o <;> simp [Instruction.pattern, Operation.pattern, unassigned]
  | _ => simp [Instruction.pattern, unassigned]

theorem pattern_handlerOf (i : Option Instruction) :
    (handlerOf i).pattern = unassigned.pattern ↔ i = none := by
  cases i with
  | none => exact ⟨fun _ => rfl, fun _ => rfl⟩
  | some i => exact ⟨fun h => absurd h (pattern_ne i), fun h => by cases h⟩

/-- The handler that a word resolves to. -/
def handlerAt (op : Nat) : Handler := handlerOf (Word.decode (BitVec.ofNat 16 op))

section

variable {op : Nat} (hop : op < 0x10000) (s : Plain)
include hop

theorem run_resolve_ofNat : (resolve op).run s = .ok (handlerAt op) s := by
  have hrun := run_resolve (BitVec.ofNat 16 op) s
  rwa [toNat_ofNat_word hop] at hrun

theorem run_groupHandler_ofNat (hgroup : op / 0x1000 ∈ [0x0, 0x8, 0xE, 0xF]) :
    (groupHandler op).run s = .ok (handlerAt op) s := by
  have hin := isGrouped_ofNat hop hgroup
  have hrun := run_groupHandler (BitVec.ofNat 16 op) s hin
  rwa [toNat_ofNat_word hop, ← Word.decode_eq_decodeGroup hin] at hrun

theorem run_execute_handlerAt : (execute op).run s = ((handlerAt op).run op).run s := by
  simp only [execute, EStateM.run_bind, run_resolve_ofNat hop]

theorem run_executeGroup_handlerAt (hgroup : op / 0x1000 ∈ [0x0, 0x8, 0xE, 0xF]) :
    (executeGroup op).run s = ((handlerAt op).run op).run s := by
  simp only [executeGroup, EStateM.run_bind, run_groupHandler_ofNat hop s hgroup]

end

/-! ## Executing -/

section

variable {op : Nat} (hop : op < 0x10000) (m : Machine)
include hop

theorem report_faultAt :
    (m.faultAt (BitVec.ofNat 16 op)).report 0 = .invalidOpcode op ((m.pc - 2) % 4096) 0 := by
  have haddress : ((residue 4096 (m.pc - 2)).val : Int) = (m.pc - 2) % 4096 := residue_val 4096 _
  show Report.invalidOpcode ((BitVec.ofNat 16 op).toNat : Nat)
    ((residue 4096 (m.pc - 2)).val : Int) 0 = .invalidOpcode op ((m.pc - 2) % 4096) 0
  rw [toNat_ofNat_word hop, haddress]

theorem execute_unassigned (h : Unassigned op) :
    m.execute (BitVec.ofNat 16 op) = .error ⟨m.faultAt (BitVec.ofNat 16 op), m⟩ :=
  (m.execute_eq_error_iff _ _).2 ⟨(unassigned_iff hop).1 h, rfl⟩

theorem execute_assigned (h : ¬ Unassigned op) :
    ∃ i, m.execute (BitVec.ofNat 16 op) = .ok (m.apply i) := by
  obtain ⟨i, hi⟩ := Option.ne_none_iff_exists'.1 (mt (unassigned_iff hop).2 h)
  refine ⟨i, ?_⟩
  rw [Machine.execute, hi]
  rfl

end

section

variable {op : Nat} (hop : op < 0x10000) {s : Plain} (hs : s.WellFormed)
include hop hs

theorem run_execute_unassigned (h : Unassigned op) :
    (execute op).run s = .error (.invalidOpcode (.invalidOpcode op ((s.pc - 2) % 4096) 0)) s := by
  obtain ⟨m, hm, rfl⟩ := wellFormed_iff.1 hs
  rw [run_execute_ofNat m hop hm.sp, execute_unassigned hop m h]
  show EStateM.Result.error (Failure.invalidOpcode ((m.faultAt (BitVec.ofNat 16 op)).report 0))
    m.plain = _
  rw [report_faultAt hop]
  rfl

theorem run_execute_assigned (h : ¬ Unassigned op) :
    ∃ s' : Plain, (execute op).run s = .ok () s' ∧ s'.WellFormed := by
  obtain ⟨m, hm, rfl⟩ := wellFormed_iff.1 hs
  obtain ⟨i, hi⟩ := execute_assigned hop m h
  refine ⟨(m.apply i).plain, ?_, wellFormed_plain (hm.apply i)⟩
  rw [run_execute_ofNat m hop hm.sp, hi]
  rfl

end

/-- On a state in range execution fails exactly on the unassigned words, and then with the report of
the word and of the address it was fetched from, in tick 0; the state, its random source included,
stays as it was.  The second stage does the same on the words of the four groups.  A word resolves
to one handler, whatever the state, and both ways of executing it run that handler. -/
theorem execute_fails_iff_unassigned {op : Nat} (hop : op < 0x10000) :
    (∀ s : Plain, s.WellFormed →
      ((∃ f left, (execute op).run s = .error f left) ↔ Unassigned op) ∧
      (∀ f left, (execute op).run s = .error f left →
        f = .invalidOpcode (.invalidOpcode op ((s.pc - 2) % 4096) 0) ∧ left = s) ∧
      (op / 0x1000 ∈ [0x0, 0x8, 0xE, 0xF] → (executeGroup op).run s = (execute op).run s)) ∧
    ((handlerAt op).pattern = unassigned.pattern ↔ Unassigned op) ∧
    (∀ s : Plain, (resolve op).run s = .ok (handlerAt op) s ∧
      (execute op).run s = ((handlerAt op).run op).run s ∧
      (op / 0x1000 ∈ [0x0, 0x8, 0xE, 0xF] →
        (executeGroup op).run s = ((handlerAt op).run op).run s)) ∧
    (∀ m : Machine, m.WellFormed →
      (execute op).run m.plain = outcome () (m.execute (BitVec.ofNat 16 op)) ∧
      ((∃ halt, m.execute (BitVec.ofNat 16 op) = .error halt) ↔ Unassigned op) ∧
      (∀ halt, m.execute (BitVec.ofNat 16 op) = .error halt →
        halt.machine = m ∧ halt.fault.report 0 = .invalidOpcode op ((m.pc - 2) % 4096) 0) ∧
      (op / 0x1000 ∈ [0x0, 0x8, 0xE, 0xF] →
        m.executeGroup (BitVec.ofNat 16 op) = m.execute (BitVec.ofNat 16 op))) := by
  refine ⟨?_, ?_, ?_, ?_⟩
  · intro s hs
    refine ⟨?_, ?_, ?_⟩
    · constructor
      · rintro ⟨f, left, hrun⟩
        refine Decidable.by_contra fun hassigned => ?_
        obtain ⟨s', hok, -⟩ := run_execute_assigned hop hs hassigned
        rw [hok] at hrun
        cases hrun
      · intro hunassigned
        exact ⟨_, _, run_execute_unassigned hop hs hunassigned⟩
    · intro f left hrun
      by_cases h : Unassigned op
      · rw [run_execute_unassigned hop hs h] at hrun
        cases hrun
        exact ⟨rfl, rfl⟩
      · obtain ⟨s', hok, -⟩ := run_execute_assigned hop hs h
        rw [hok] at hrun
        cases hrun
    · intro hgroup
      rw [run_execute_handlerAt hop, run_executeGroup_handlerAt hop s hgroup]
  · rw [unassigned_iff hop]
    exact pattern_handlerOf _
  · intro s
    exact ⟨run_resolve_ofNat hop s, run_execute_handlerAt hop s, run_executeGroup_handlerAt hop s⟩
  · intro m hm
    refine ⟨run_execute_ofNat m hop hm.sp, ?_, ?_, ?_⟩
    · constructor
      · rintro ⟨halt, hhalt⟩
        exact (unassigned_iff hop).2 ((m.execute_eq_error_iff _ _).1 hhalt).1
      · intro hunassigned
        exact ⟨_, execute_unassigned hop m hunassigned⟩
    · intro halt hhalt
      obtain ⟨-, rfl⟩ := (m.execute_eq_error_iff _ _).1 hhalt
      exact ⟨rfl, report_faultAt hop m⟩
    · intro hgroup
      exact m.executeGroup_eq_execute (isGrouped_ofNat hop hgroup)

/-- The last slot of the table of group F and the first byte behind it. -/
theorem execute_fails_iff_unassigned_behind_table :
    (0xF366 < 0x10000 ∧ (blank (.repeating [])).WellFormed ∧ Unassigned 0xF366 ∧
      (execute 0xF366).run (blank (.repeating [])) =
        .error (.invalidOpcode (.invalidOpcode 0xF366 4094 0)) (blank (.repeating []))) ∧
    (0xF365 < 0x10000 ∧ 0xF365 / 0x1000 ∈ [0x0, 0x8, 0xE, 0xF] ∧ ¬ Unassigned 0xF365 ∧
      (executeGroup 0xF365).run (blank (.repeating [])) =
        (execute 0xF365).run (blank (.repeating []))) := by
  have hblank : (blank (.repeating [])).WellFormed := wellFormed_blank _
  have hbehind : 0xF366 < 0x10000 := by decide
  have hlast : 0xF365 < 0x10000 := by decide
  refine ⟨⟨hbehind, hblank, by decide, ?_⟩, hlast, by decide, by decide, ?_⟩
  · obtain ⟨hfails, hreport, -⟩ := (execute_fails_iff_unassigned hbehind).1 _ hblank
    obtain ⟨f, left, hrun⟩ := hfails.2 (by decide)
    obtain ⟨rfl, rfl⟩ := hreport f left hrun
    exact hrun
  · exact ((execute_fails_iff_unassigned hlast).1 _ hblank).2.2 (by decide)

end ChipEight.Plain
