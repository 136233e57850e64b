/-
# `ChipEight.Instruction.Decode` — from words to instructions

The leading digit of a word selects its instruction, but for four digits only a
group of them: the groups 0, 8 and E go on by the last digit, the group F by the
low byte.  Digits that do not take part are ignored, so `0x0120` is the word of
`clear` as much as `0x00E0`.  A slot without an instruction is unassigned.

**Proved here.**

    on the four groups both readings agree         (`decode_eq_decodeGroup`)
    which words are unassigned                     (`decode_eq_none_iff`)
-/
import ChipEight.Instruction.Basic

namespace ChipEight.Word

/-- The instruction of group F with a given low byte. -/
def decodeMisc (x : Register) : Nat → Option Instruction
  | 0x07 => some (.readDelay x)
  | 0x0A => some (.awaitKey x)
  | 0x15 => some (.setDelay x)
  | 0x18 => some (.setSound x)
  | 0x1E => some (.advance x)
  | 0x29 => some (.glyph x)
  | 0x33 => some (.decimal x)
  | 0x55 => some (.dump x)
  | 0x65 => some (.fill x)
  | _ => none

/-- The instruction of group 0 with a given last digit. -/
def decodeScreen : Nat → Option Instruction
  | 0x0 => some .clear
  | 0xE => some .ret
  | _ => none

/-- The instruction of group E with a given last digit. -/
def decodeKey (x : Register) : Nat → Option Instruction
  | 0x1 => some (.skip (.free x))
  | 0xE => some (.skip (.held x))
  | _ => none

/-- The instruction of a word in one of the groups 0, 8, E and F. -/
def decodeGroup (w : Word) : Option Instruction :=
  match w.group with
  | 0x0 => decodeScreen w.n
  | 0x8 => (Operation.ofDigit? w.n).map fun o => .combine o w.x w.y
  | 0xE => decodeKey w.x w.n
  | 0xF => decodeMisc w.x w.kk.toNat
  | _ => none

/-- The instruction of a word; none if its slot is unassigned. -/
def decode (w : Word) : Option Instruction :=
  match w.group with
  | 0x1 => some (.jump w.nnn)
  | 0x2 => some (.call w.nnn)
  | 0x3 => some (.skip (.isByte w.x w.kk))
  | 0x4 => some (.skip (.notByte w.x w.kk))
  | 0x5 => some (.skip (.same w.x w.y))
  | 0x6 => some (.put w.x w.kk)
  | 0x7 => some (.bump w.x w.kk)
  | 0x9 => some (.skip (.differ w.x w.y))
  | 0xA => some (.point w.nnn)
  | 0xB => some (.jumpOffset w.nnn)
  | 0xC => some (.random w.x w.kk)
  | 0xD => some (.draw w.x w.y w.n)
  | _ => w.decodeGroup

/-- Whether the word lies in one of the four groups that are read in two stages. -/
def isGrouped (w : Word) : Bool := w.group ∈ [0x0, 0x8, 0xE, 0xF]

/-- The last digits that are assigned in a group read by its last digit. -/
def assignedDigits : Nat → List Nat
  | 0x0 => [0x0, 0xE]
  | 0x8 => [0x0, 0x1, 0x2, 0x3, 0x4, 0x5, 0x6, 0x7, 0xE]
  | 0xE => [0x1, 0xE]
  | _ => []

/-- The low bytes that are assigned in group F. -/
def assignedBytes : List Nat := [0x07, 0x0A, 0x15, 0x18, 0x1E, 0x29, 0x33, 0x55, 0x65]

/-- On a grouped word the reading of its group is the reading of the word. -/
theorem decode_eq_decodeGroup {w : Word} (h : w.isGrouped = true) : w.decode = w.decodeGroup := by
  simp only [isGrouped, List.mem_cons, List.not_mem_nil, or_false, decide_eq_true_eq] at h
  rcases h with h | h | h | h <;> simp [decode, h]

theorem decodeScreen_eq_none_iff (k : Nat) :
    decodeScreen k = none ↔ k ∉ assignedDigits 0x0 := by
  unfold decodeScreen assignedDigits
  split <;> simp_all

theorem decodeKey_eq_none_iff (x : Register) (k : Nat) :
    decodeKey x k = none ↔ k ∉ assignedDigits 0xE := by
  unfold decodeKey assignedDigits
  split <;> simp_all

theorem ofDigit?_eq_none_iff (k : Nat) :
    Operation.ofDigit? k = none ↔ k ∉ assignedDigits 0x8 := by
  unfold Operation.ofDigit? assignedDigits
  split <;> simp_all

theorem decodeMisc_eq_none_iff (x : Register) (k : Nat) :
    decodeMisc x k = none ↔ k ∉ assignedBytes := by
  unfold decodeMisc assignedBytes
  split <;> simp_all

/-- The unassigned words: those of groups 0, 8 and E whose last digit is not assigned, and those
of group F whose low byte is not. -/
theorem decode_eq_none_iff (w : Word) :
    w.decode = none ↔
      (w.group = 0x0 ∧ w.n.val ∉ assignedDigits 0x0) ∨
      (w.group = 0x8 ∧ w.n.val ∉ assignedDigits 0x8) ∨
      (w.group = 0xE ∧ w.n.val ∉ assignedDigits 0xE) ∨
      (w.group = 0xF ∧ w.kk.toNat ∉ assignedBytes) := by
  have hlt := w.group_lt
  unfold decode decodeGroup
  split
  case h_13 =>
    split
    · next h => simp [h, decodeScreen_eq_none_iff]
    · next h => simp [h, ofDigit?_eq_none_iff]
    · next h => simp [h, decodeKey_eq_none_iff]
    · next h => simp [h, decodeMisc_eq_none_iff]
    · grind
  all_goals next h => simp [h]

end ChipEight.Word
