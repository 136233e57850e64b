/-
# `ChipEight.Proofs.Words` — which words an instruction has

Decoding goes from words to instructions.  Here is the way back: the leading digit,
which every instruction fixes, and what the instruction says of the digits behind it.
Digits of which nothing is said are free, as decoding ignores them.

**Proved here.**

    the digits of the operations, and of those with a flag    (`digit_mem`, `digit_mem_of_flag?`)
    an instruction is only read from words of its group       (`group_of_decode`)
    the words of an instruction, by their digits              (`decode_eq_some_iff`)
    among them those of a call and of a return                (`decode_eq_call_iff`,
                                                               `decode_eq_ret_iff`)
    so a word with these digits executes its instruction      (`execute_of_fits`)
-/
import ChipEight.Machine.Execute

namespace ChipEight

/-- The leading digit of the words with a given condition. -/
def Condition.group : Condition → Nat
  | .isByte _ _ => 0x3
  | .notByte _ _ => 0x4
  | .same _ _ => 0x5
  | .differ _ _ => 0x9
  | .held _ | .free _ => 0xE

/-- The leading digit of an instruction's words. -/
def Instruction.group : Instruction → Nat
  | .clear | .ret => 0x0
  | .jump _ => 0x1
  | .call _ => 0x2
  | .skip c => c.group
  | .put _ _ => 0x6
  | .bump _ _ => 0x7
  | .combine _ _ _ => 0x8
  | .point _ => 0xA
  | .jumpOffset _ => 0xB
  | .random _ _ => 0xC
  | .draw _ _ _ => 0xD
  | .readDelay _ | .awaitKey _ | .setDelay _ | .setSound _ | .advance _ | .glyph _ | .decimal _
  | .dump _ | .fill _ => 0xF

/-- What a condition says of the digits behind the leading one. -/
def Condition.Fits (w : Word) : Condition → Prop
  | .isByte x b | .notByte x b => w.x = x ∧ w.kk = b
  | .same x y | .differ x y => w.x = x ∧ w.y = y
  | .held x => w.n.val = 0xE ∧ w.x = x
  | .free x => w.n.val = 0x1 ∧ w.x = x

/-- What an instruction says of the digits behind the leading one. -/
def Instruction.Fits (w : Word) : Instruction → Prop
  | .clear => w.n.val = 0x0
  | .ret => w.n.val = 0xE
  | .jump target | .call target | .point target | .jumpOffset target => w.nnn = target
  | .skip c => c.Fits w
  | .put x b | .bump x b | .random x b => w.x = x ∧ w.kk = b
  | .combine o x y => w.n.val = o.digit ∧ w.x = x ∧ w.y = y
  | .draw x y n => w.x = x ∧ w.y = y ∧ w.n = n
  | .readDelay x => w.kk.toNat = 0x07 ∧ w.x = x
  | .awaitKey x => w.kk.toNat = 0x0A ∧ w.x = x
  | .setDelay x => w.kk.toNat = 0x15 ∧ w.x = x
  | .setSound x => w.kk.toNat = 0x18 ∧ w.x = x
  | .advance x => w.kk.toNat = 0x1E ∧ w.x = x
  | .glyph x => w.kk.toNat = 0x29 ∧ w.x = x
  | .decimal x => w.kk.toNat = 0x33 ∧ w.x = x
  | .dump x => w.kk.toNat = 0x55 ∧ w.x = x
  | .fill x => w.kk.toNat = 0x65 ∧ w.x = x

namespace Operation

theorem digit_mem (o : Operation) :
    o.digit ∈ [0x0, 0x1, 0x2, 0x3, 0x4, 0x5, 0x6, 0x7, 0xE] := by
  cases o <;> decide

theorem digit_mem_of_flag? {o : Operation} {a b : Byte} {f : Bool} (h : o.flag? a b = some f) :
    o.digit ∈ [0x4, 0x5, 0x6, 0x7, 0xE] := by
  cases o with
  | copy | or | and | xor => cases h
  | _ => decide

end Operation

namespace Word

variable {w : Word} {i : Instruction}

theorem group_of_decodeScreen {k : Nat} (h : decodeScreen k = some i) : i.group = 0x0 := by
  unfold decodeScreen at h
  split at h <;> cases h <;> rfl

theorem group_of_decodeKey {x : Register} {k : Nat} (h : decodeKey x k = some i) :
    i.group = 0xE := by
  unfold decodeKey at h
  split at h <;> cases h <;> rfl

theorem group_of_decodeMisc {x : Register} {k : Nat} (h : decodeMisc x k = some i) :
    i.group = 0xF := by
  unfold decodeMisc at h
  split at h <;> cases h <;> rfl

theorem group_of_decodeGroup (h : w.decodeGroup = some i) : w.group = i.group := by
  unfold decodeGroup at h
  split at h
  · next hgroup => rw [hgroup, group_of_decodeScreen h]
  · next hgroup =>
      obtain ⟨o, -, rfl⟩ := Option.map_eq_some_iff.1 h
      exact hgroup
  · next hgroup => rw [hgroup, group_of_decodeKey h]
  · next hgroup => rw [hgroup, group_of_decodeMisc h]
  · cases h

theorem group_of_decode (h : w.decode = some i) : w.group = i.group := by
  unfold decode at h
  split at h
  case h_13 => exact group_of_decodeGroup h
  all_goals
    cases h
    assumption

theorem digit_of_ofDigit? {k : Nat} {o : Operation} (h : Operation.ofDigit? k = some o) :
    k = o.digit := by
  unfold Operation.ofDigit? at h
  split at h <;> cases h <;> rfl

theorem fits_of_decodeScreen (h : decodeScreen w.n = some i) : i.Fits w := by
  unfold decodeScreen at h
  split at h <;> cases h <;> assumption

theorem fits_of_decodeKey (h : decodeKey w.x w.n = some i) : i.Fits w := by
  unfold decodeKey at h
  split at h <;> cases h <;> exact ⟨by assumption, rfl⟩

theorem fits_of_decodeMisc (h : decodeMisc w.x w.kk.toNat = some i) : i.Fits w := by
  unfold decodeMisc at h
  split at h <;> cases h <;> exact ⟨by assumption, rfl⟩

theorem fits_of_decodeGroup (h : w.decodeGroup = some i) : i.Fits w := by
  unfold decodeGroup at h
  split at h
  · exact fits_of_decodeScreen h
  · obtain ⟨o, ho, rfl⟩ := Option.map_eq_some_iff.1 h
    exact ⟨digit_of_ofDigit? ho, rfl, rfl⟩
  · exact fits_of_decodeKey h
  · exact fits_of_decodeMisc h
  · cases h

theorem fits_of_decode (h : w.decode = some i) : i.Fits w := by
  unfold decode at h
  split at h
  case h_13 => exact fits_of_decodeGroup h
  all_goals
    cases h
    simp only [Instruction.Fits, Condition.Fits, and_self]

theorem decode_of_fits (hgroup : w.group = i.group) (h : i.Fits w) : w.decode = some i := by
  cases i with
  | skip c =>
      cases c with
      | isByte x b | notByte x b | same x y | differ x y =>
          obtain ⟨rfl, rfl⟩ := h
          simp only [decode, hgroup, Instruction.group, Condition.group]
      | held x | free x =>
          obtain ⟨hn, rfl⟩ := h
          simp only [decode, decodeGroup, decodeKey, hgroup, Instruction.group, Condition.group, hn]
  | clear | ret =>
      have hn : w.n.val = _ := h
      simp only [decode, decodeGroup, decodeScreen, hgroup, Instruction.group, hn]
  | jump target | call target | point target | jumpOffset target =>
      obtain rfl : w.nnn = target := h
      simp only [decode, hgroup, Instruction.group]
  | put x b | bump x b | random x b =>
      obtain ⟨rfl, rfl⟩ := h
      simp only [decode, hgroup, Instruction.group]
  | draw x y n =>
      obtain ⟨rfl, rfl, rfl⟩ := h
      simp only [decode, hgroup, Instruction.group]
  | combine o x y =>
      obtain ⟨hn, rfl, rfl⟩ := h
      simp only [decode, decodeGroup, hgroup, Instruction.group, hn, Operation.ofDigit?_digit,
        Option.map_some]
  | _ =>
      obtain ⟨hkk, rfl⟩ := h
      simp only [decode, decodeGroup, decodeMisc, hgroup, Instruction.group, hkk]

theorem decode_eq_some_iff : w.decode = some i ↔ w.group = i.group ∧ i.Fits w :=
  ⟨fun h => ⟨group_of_decode h, fits_of_decode h⟩, fun h => decode_of_fits h.1 h.2⟩

theorem decode_eq_call_iff {target : Address} :
    w.decode = some (.call target) ↔ w.group = 0x2 ∧ w.nnn = target :=
  decode_eq_some_iff

theorem decode_eq_ret_iff : w.decode = some .ret ↔ w.group = 0x0 ∧ w.n.val = 0xE :=
  decode_eq_some_iff

end Word

theorem Machine.execute_of_fits {w : Word} {i : Instruction} (hw : w.group = i.group)
    (hi : i.Fits w) (m : Machine) : m.execute w = .ok (m.apply i) := by
  rw [execute, Word.decode_eq_some_iff.2 ⟨hw, hi⟩]
  rfl

end ChipEight
