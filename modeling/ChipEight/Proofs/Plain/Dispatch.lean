/-
# `ChipEight.Proofs.Plain.Dispatch` — from words to handlers through tables

The leading digit of a word selects a slot of the primary table.  Four of its
slots lead on to a table of their own, indexed by the last digit or by the whole
low byte; the table of group F ends behind its last handler, so a larger byte has
to be stopped before the access.  A slot that nobody filled holds the handler that
reports the word.

**Proved here.**

    every look-up succeeds, and finds the handler of the decoded word    (`run_resolve`, `run_groupHandler`)
    that handler does what the decoded instruction does                  (`run_routine`)
    words executed through the tables do what the machine does           (`run_execute`, `run_executeGroup`)
-/
import ChipEight.Proofs.Plain.Sprite

namespace ChipEight.Plain

/-- A handler, with the pattern of the words it is for. -/
structure Handler where
  pattern : String
  run : Nat → Exec Unit

def unassigned : Handler := ⟨"invalid", invalid⟩

/-! ## Tables -/

/-- A table in which the listed slots are filled. -/
def table (size : Nat) (entries : List (Nat × Handler)) : List Handler :=
  (List.range size).map fun i => (entries.lookup i).getD unassigned

def screenEntries : List (Nat × Handler) := [(0x0, ⟨"00E0", clear⟩), (0xE, ⟨"00EE", ret⟩)]

def operationEntries : List (Nat × Handler) :=
  [ (0x0, ⟨"8xy0", copy⟩),
    (0x1, ⟨"8xy1", logic (· ||| ·)⟩),
    (0x2, ⟨"8xy2", logic (· &&& ·)⟩),
    (0x3, ⟨"8xy3", logic (· ^^^ ·)⟩),
    (0x4, ⟨"8xy4", add⟩),
    (0x5, ⟨"8xy5", sub⟩),
    (0x6, ⟨"8xy6", shiftRight⟩),
    (0x7, ⟨"8xy7", subFrom⟩),
    (0xE, ⟨"8xyE", shiftLeft⟩) ]

def keyEntries : List (Nat × Handler) :=
  [(0x1, ⟨"ExA1", skipWhen free⟩), (0xE, ⟨"Ex9E", skipWhen held⟩)]

def miscEntries : List (Nat × Handler) :=
  [ (0x07, ⟨"Fx07", readDelay⟩),
    (0x0A, ⟨"Fx0A", awaitKey⟩),
    (0x15, ⟨"Fx15", setDelay⟩),
    (0x18, ⟨"Fx18", setSound⟩),
    (0x1E, ⟨"Fx1E", advance⟩),
    (0x29, ⟨"Fx29", glyph⟩),
    (0x33, ⟨"Fx33", decimal⟩),
    (0x55, ⟨"Fx55", dump⟩),
    (0x65, ⟨"Fx65", fill⟩) ]

/-- For each of the four groups its table and the mask that gives the index into it. -/
def groupTables : List (Nat × List Handler × Nat) :=
  [ (0x0, table 16 screenEntries, 0x000F),
    (0x8, table 16 operationEntries, 0x000F),
    (0xE, table 16 keyEntries, 0x000F),
    (0xF, table 0x66 miscEntries, 0x00FF) ]

/-- A slot of the primary table. -/
inductive Slot where
  /-- Goes on in the table of the group. -/
  | group
  | single (h : Handler)

def primaryTable : List Slot :=
  [ .group,
    .single ⟨"1nnn", jump⟩,
    .single ⟨"2nnn", call⟩,
    .single ⟨"3xkk", skipWhen isByte⟩,
    .single ⟨"4xkk", skipWhen notByte⟩,
    .single ⟨"5xy0", skipWhen same⟩,
    .single ⟨"6xkk", put⟩,
    .single ⟨"7xkk", bump⟩,
    .group,
    .single ⟨"9xy0", skipWhen differ⟩,
    .single ⟨"Annn", point⟩,
    .single ⟨"Bnnn", jumpOffset⟩,
    .single ⟨"Cxkk", random⟩,
    .single ⟨"Dxyn", draw⟩,
    .group,
    .group ]

/-- The handler of a word of one of the four groups. -/
def groupHandler (op : Nat) : Exec Handler :=
  match groupTables.lookup (group op) with
  | none => throw (.outOfRange (group op))
  | some (handlers, mask) =>
      if handlers.length ≤ op &&& mask then return unassigned
      else entry handlers (op &&& mask : Nat)

/-- The handler of a word. -/
def resolve (op : Nat) : Exec Handler := do
  match ← entry primaryTable (group op : Nat) with
  | .group => groupHandler op
  | .single h => return h

def execute (op : Nat) : Exec Unit := do
  let h ← resolve op
  h.run op

def executeGroup (op : Nat) : Exec Unit := do
  let h ← groupHandler op
  h.run op

/-! ## The handler of an instruction -/

def operationRoutine : Operation → Nat → Exec Unit
  | .copy => copy
  | .or => logic (· ||| ·)
  | .and => logic (· &&& ·)
  | .xor => logic (· ^^^ ·)
  | .add => add
  | .sub => sub
  | .shiftRight => shiftRight
  | .subFrom => subFrom
  | .shiftLeft => shiftLeft

def conditionTest : Condition → Nat → Exec Bool
  | .isByte _ _ => isByte
  | .notByte _ _ => notByte
  | .same _ _ => same
  | .differ _ _ => differ
  | .held _ => held
  | .free _ => free

/-- What is run for an instruction; the operands come from the word, not from here. -/
def routine : Instruction → Nat → Exec Unit
  | .clear => clear
  | .ret => ret
  | .jump _ => jump
  | .call _ => call
  | .skip c => skipWhen (conditionTest c)
  | .put _ _ => put
  | .bump _ _ => bump
  | .combine o _ _ => operationRoutine o
  | .point _ => point
  | .jumpOffset _ => jumpOffset
  | .random _ _ => random
  | .draw _ _ _ => draw
  | .readDelay _ => readDelay
  | .awaitKey _ => awaitKey
  | .setDelay _ => setDelay
  | .setSound _ => setSound
  | .advance _ => advance
  | .glyph _ => glyph
  | .decimal _ => decimal
  | .dump _ => dump
  | .fill _ => fill

/-- The handler that belongs to the reading of a word. -/
def handlerOf : Option Instruction → Handler
  | some i => ⟨i.pattern, routine i⟩
  | none => unassigned

/-! ## Looking up -/

variable (w : Word) (s : Plain)

theorem run_entry_table {size k : Nat} (entries : List (Nat × Handler)) (hk : k < size) :
    (entry (table size entries) k).run s = .ok ((entries.lookup k).getD unassigned) s := by
  have hlt : k < (table size entries).length := by
    simpa [table] using hk
  rw [run_entry hlt]
  simp [table]

theorem lookup_screen (k : Nat) :
    (screenEntries.lookup k).getD unassigned = handlerOf (Word.decodeScreen k) := by
  unfold Word.decodeScreen
  split
  · rfl
  · rfl
  · have hnone : screenEntries.lookup k = none := by
      rw [List.lookup_eq_none_iff]
      simp_all [screenEntries]
    rw [hnone]
    rfl

theorem lookup_operation (x y : Register) (k : Nat) :
    (operationEntries.lookup k).getD unassigned =
      handlerOf ((Operation.ofDigit? k).map fun o => .combine o x y) := by
  unfold Operation.ofDigit?
  split
  case h_10 =>
    have hnone : operationEntries.lookup k = none := by
      rw [List.lookup_eq_none_iff]
      simp_all [operationEntries]
    rw [hnone]
    rfl
  all_goals rfl

theorem lookup_key (x : Register) (k : Nat) :
    (keyEntries.lookup k).getD unassigned = handlerOf (Word.decodeKey x k) := by
  unfold Word.decodeKey
  split
  · rfl
  · rfl
  · have hnone : keyEntries.lookup k = none := by
      rw [List.lookup_eq_none_iff]
      simp_all [keyEntries]
    rw [hnone]
    rfl

theorem lookup_misc (x : Register) (k : Nat) :
    (miscEntries.lookup k).getD unassigned = handlerOf (Word.decodeMisc x k) := by
  unfold Word.decodeMisc
  split
  case h_10 =>
    have hnone : miscEntries.lookup k = none := by
      rw [List.lookup_eq_none_iff]
      simp_all [miscEntries]
    rw [hnone]
    rfl
  all_goals rfl

theorem lookup_of_le {size k : Nat} {entries : List (Nat × Handler)}
    (hkeys : ∀ e ∈ entries, e.1 < size) (hk : size ≤ k) : entries.lookup k = none := by
  rw [List.lookup_eq_none_iff]
  intro e he
  have hlt := hkeys e he
  rw [bne_iff_ne]
  omega

/-- In the table of its group the index of a word is in range or stopped before the access. -/
theorem run_groupHandler_table {op size mask : Nat} {entries : List (Nat × Handler)}
    (htable : groupTables.lookup (group op) = some (table size entries, mask))
    (hkeys : ∀ e ∈ entries, e.1 < size) :
    (groupHandler op).run s = .ok ((entries.lookup (op &&& mask)).getD unassigned) s := by
  have hlength : (table size entries).length = size := by simp [table]
  simp only [groupHandler, htable, hlength]
  by_cases hle : size ≤ op &&& mask
  · rw [if_pos hle, lookup_of_le hkeys hle]
    rfl
  · rw [if_neg hle, run_entry_table s entries (Nat.lt_of_not_le hle)]

theorem run_groupHandler (h : w.isGrouped = true) :
    (groupHandler w.toNat).run s = .ok (handlerOf w.decodeGroup) s := by
  have hn : w.toNat &&& 0x000F = w.n.val := n_word w
  have hkk : w.toNat &&& 0x00FF = w.kk.toNat := kk_word w
  simp only [Word.isGrouped, List.mem_cons, List.not_mem_nil, or_false, decide_eq_true_eq] at h
  rcases h with h | h | h | h
  · have htable : groupTables.lookup (group w.toNat) = some (table 16 screenEntries, 0x000F) := by
      rw [group_word, h]
      rfl
    rw [run_groupHandler_table s htable (by decide), hn, lookup_screen]
    simp only [Word.decodeGroup, h]
  · have htable : groupTables.lookup (group w.toNat) =
        some (table 16 operationEntries, 0x000F) := by
      rw [group_word, h]
      rfl
    rw [run_groupHandler_table s htable (by decide), hn, lookup_operation w.x w.y]
    simp only [Word.decodeGroup, h]
  · have htable : groupTables.lookup (group w.toNat) = some (table 16 keyEntries, 0x000F) := by
      rw [group_word, h]
      rfl
    rw [run_groupHandler_table s htable (by decide), hn, lookup_key w.x]
    simp only [Word.decodeGroup, h]
  · have htable : groupTables.lookup (group w.toNat) = some (table 0x66 miscEntries, 0x00FF) := by
      rw [group_word, h]
      rfl
    rw [run_groupHandler_table s htable (by decide), hkk, lookup_misc w.x]
    simp only [Word.decodeGroup, h]

theorem run_resolve : (resolve w.toNat).run s = .ok (handlerOf w.decode) s := by
  have hlt := w.group_lt
  have hslot : ∀ slot : Slot, primaryTable[w.group]? = some slot →
      (entry primaryTable (w.group : Nat)).run s = .ok slot s := by
    intro slot h
    obtain ⟨hk, rfl⟩ := List.getElem?_eq_some_iff.1 h
    exact run_entry hk s
  unfold Word.decode
  split
  case h_13 =>
    have hgroup : w.isGrouped = true := by
      simp only [Word.isGrouped, List.mem_cons, List.not_mem_nil, or_false, decide_eq_true_eq]
      grind
    have hprimary : primaryTable[w.group]? = some .group := by
      simp only [Word.isGrouped, List.mem_cons, List.not_mem_nil, or_false, decide_eq_true_eq]
        at hgroup
      rcases hgroup with h | h | h | h <;> rw [h] <;> rfl
    simp only [resolve, EStateM.run_bind, group_word, hslot _ hprimary]
    exact run_groupHandler w s hgroup
  all_goals
    next h =>
      rw [h] at hslot
      simp only [resolve, EStateM.run_bind, group_word, h]
      rw [hslot _ rfl]
      rfl

theorem toNat_ofNat_word {op : Nat} (h : op < 0x10000) : (BitVec.ofNat 16 op).toNat = op :=
  Nat.mod_eq_of_lt h

theorem isGrouped_ofNat {op : Nat} (h : op < 0x10000)
    (hgroup : op / 0x1000 ∈ [0x0, 0x8, 0xE, 0xF]) :
    Word.isGrouped (BitVec.ofNat 16 op) = true := by
  rw [Word.isGrouped, Word.group, toNat_ofNat_word h]
  exact decide_eq_true hgroup

/-! ## Executing -/

variable (m : Machine)

theorem run_operationRoutine (o : Operation) :
    (operationRoutine o w.toNat).run m.plain = .ok () (m.apply (.combine o w.x w.y)).plain := by
  cases o with
  | copy => exact run_copy m w
  | or => exact run_logic m w (fun _ _ => rfl) fun a b => (BitVec.toNat_or a b).symm
  | and => exact run_logic m w (fun _ _ => rfl) fun a b => (BitVec.toNat_and a b).symm
  | xor => exact run_logic m w (fun _ _ => rfl) fun a b => (BitVec.toNat_xor a b).symm
  | add => exact run_add m w
  | sub => exact run_sub m w
  | shiftRight => exact run_shiftRight m w
  | subFrom => exact run_subFrom m w
  | shiftLeft => exact run_shiftLeft m w

theorem run_routine_screen {i : Instruction} (h : Word.decodeScreen w.n = some i) :
    (routine i w.toNat).run m.plain = .ok () (m.apply i).plain := by
  unfold Word.decodeScreen at h
  split at h
  · cases h
    exact run_clear m w
  · cases h
    exact run_ret m w
  · cases h

theorem run_routine_key {i : Instruction} (h : Word.decodeKey w.x w.n = some i) :
    (routine i w.toNat).run m.plain = .ok () (m.apply i).plain := by
  unfold Word.decodeKey at h
  split at h
  · cases h
    exact run_skipWhen m w (run_free m w)
  · cases h
    exact run_skipWhen m w (run_held m w)
  · cases h

theorem run_routine_misc {i : Instruction} (h : Word.decodeMisc w.x w.kk.toNat = some i) :
    (routine i w.toNat).run m.plain = .ok () (m.apply i).plain := by
  unfold Word.decodeMisc at h
  split at h <;> cases h
  · exact run_readDelay m w
  · exact run_awaitKey m w
  · exact run_setDelay m w
  · exact run_setSound m w
  · exact run_advance m w
  · exact run_glyph m w
  · exact run_decimal m w
  · exact run_dump m w
  · exact run_fill m w

theorem run_routine_group {i : Instruction} (h : w.decodeGroup = some i) :
    (routine i w.toNat).run m.plain = .ok () (m.apply i).plain := by
  unfold Word.decodeGroup at h
  split at h
  · exact run_routine_screen w m h
  · obtain ⟨o, -, rfl⟩ := Option.map_eq_some_iff.1 h
    exact run_operationRoutine w m o
  · exact run_routine_key w m h
  · exact run_routine_misc w m h
  · cases h

/-- The routine of a decoded word does what the instruction does; the word of a call has to find
the stack pointer at a slot. -/
theorem run_routine (hsp : w.group = 0x2 → 0 ≤ m.sp ∧ m.sp < 16) {i : Instruction}
    (h : w.decode = some i) :
    (routine i w.toNat).run m.plain = .ok () (m.apply i).plain := by
  unfold Word.decode at h
  split at h
  case h_13 => exact run_routine_group w m h
  all_goals cases h
  · exact run_jump m w
  · next hgroup => exact run_call m w (hsp hgroup)
  · exact run_skipWhen m w (run_isByte m w)
  · exact run_skipWhen m w (run_notByte m w)
  · exact run_skipWhen m w (run_same m w)
  · exact run_put m w
  · exact run_bump m w
  · exact run_skipWhen m w (run_differ m w)
  · exact run_point m w
  · exact run_jumpOffset m w
  · exact run_random m w
  · exact run_draw m w

/-- How an execution by the machine shows in plain numbers, with the value that it returns. -/
def outcome {α : Type} (a : α) : Except Halt Machine → EStateM.Result Failure Plain α
  | .ok next => .ok a next.plain
  | .error halt => .error (.invalidOpcode (halt.fault.report 0)) halt.machine.plain

theorem run_handlerOf (hsp : w.group = 0x2 → 0 ≤ m.sp ∧ m.sp < 16) :
    ((handlerOf w.decode).run w.toNat).run m.plain = outcome () (m.execute w) := by
  rw [Machine.execute]
  cases h : w.decode with
  | none => exact run_invalid m w
  | some i => exact run_routine w m hsp h

theorem run_execute (hsp : w.group = 0x2 → 0 ≤ m.sp ∧ m.sp < 16) :
    (execute w.toNat).run m.plain = outcome () (m.execute w) := by
  simp only [execute, EStateM.run_bind, run_resolve]
  exact run_handlerOf w m hsp

/-- None of the words in the four groups is a call. -/
theorem run_executeGroup (h : w.isGrouped = true) :
    (executeGroup w.toNat).run m.plain = outcome () (m.executeGroup w) := by
  have hnone : w.group = 0x2 → 0 ≤ m.sp ∧ m.sp < 16 := by
    intro hgroup
    rw [Word.isGrouped, hgroup] at h
    cases h
  simp only [executeGroup, EStateM.run_bind, run_groupHandler w m.plain h]
  rw [m.executeGroup_eq_execute h, ← Word.decode_eq_decodeGroup h]
  exact run_handlerOf w m hnone

theorem run_execute_ofNat {op : Nat} (hop : op < 0x10000) (hsp : 0 ≤ m.sp ∧ m.sp < 16) :
    (execute op).run m.plain = outcome () (m.execute (BitVec.ofNat 16 op)) := by
  have hrun := run_execute (BitVec.ofNat 16 op) m fun _ => hsp
  rwa [toNat_ofNat_word hop] at hrun

theorem run_executeGroup_ofNat {op : Nat} (hop : op < 0x10000)
    (hgroup : op / 0x1000 ∈ [0x0, 0x8, 0xE, 0xF]) :
    (executeGroup op).run m.plain = outcome () (m.executeGroup (BitVec.ofNat 16 op)) := by
  have hrun := run_executeGroup (BitVec.ofNat 16 op) m (isGrouped_ofNat hop hgroup)
  rwa [toNat_ofNat_word hop] at hrun

end ChipEight.Plain
