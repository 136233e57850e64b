/-
# `ChipEight.Proofs.Arithmetic` — the register operations as arithmetic

A word of group 8 combines two registers into the first of them.  Both are read before
anything is stored; then the flag is stored, if the operation has one, and then the
result.  Any two of the first register, the second and the flag register may be the same,
and each case is another flow of data.  What comes out is said here once for all of them,
in numbers: the last digit of the word gives the result and the flag, and the result wins
where both go to the same register.

**Proved here.**

    a result and its flag are the numbers that the digit says      (`toNat_result`, `map_flag?`)
    what every register holds after an operation                   (`reg_combineInto`)
    so a word leaves the numbers of its digit, and nothing that
    is carried or shifted out is lost                              (`execute_arithmetic`)
-/
import ChipEight.Proofs.Words

namespace ChipEight

/-! ## Numbers -/

namespace Word

/-- What the last digit of a word of group 8 makes of the numbers in its two registers. -/
def arithmetic (digit a b : Nat) : Int :=
  match digit with
  | 0x0 => b
  | 0x1 => (a ||| b : Nat)
  | 0x2 => (a &&& b : Nat)
  | 0x3 => (a ^^^ b : Nat)
  | 0x4 => (a + b) % 256
  | 0x5 => (a - b) % 256
  | 0x6 => a / 2
  | 0x7 => (b - a) % 256
  | 0xE => 2 * a % 256
  | _ => 0

/-- The flag that comes with it, for the digits that have one. -/
def arithmeticFlag? (digit a b : Nat) : Option Nat :=
  match digit with
  | 0x4 => some (if 255 < a + b then 1 else 0)
  | 0x5 => some (if b < a then 1 else 0)
  | 0x6 => some (a % 2)
  | 0x7 => some (if a < b then 1 else 0)
  | 0xE => some (a / 128)
  | _ => none

end Word

namespace Operation

theorem toNat_result (o : Operation) (a b : Byte) :
    ((o.result a b).toNat : Int) = Word.arithmetic o.digit a.toNat b.toNat := by
  have ha := a.isLt
  have hb := b.isLt
  cases o with
  | copy => rfl
  | or => exact congrArg _ (BitVec.toNat_or a b)
  | and => exact congrArg _ (BitVec.toNat_and a b)
  | xor => exact congrArg _ (BitVec.toNat_xor a b)
  | add =>
      simp only [result, digit, Word.arithmetic, BitVec.toNat_add]
      omega
  | sub | subFrom =>
      simp only [result, digit, Word.arithmetic, BitVec.toNat_sub]
      omega
  | shiftRight =>
      simp only [result, digit, Word.arithmetic, BitVec.toNat_ushiftRight,
        Nat.shiftRight_eq_div_pow]
      omega
  | shiftLeft =>
      simp only [result, digit, Word.arithmetic, BitVec.toNat_shiftLeft, Nat.shiftLeft_eq]
      omega

theorem map_flag? (o : Operation) (a b : Byte) :
    ((o.flag? a b).map fun f => if f then 1 else 0) =
      Word.arithmeticFlag? o.digit a.toNat b.toNat := by
  have ha := a.isLt
  cases o with
  | copy | or | and | xor => rfl
  | add | sub | subFrom =>
      simp only [flag?, digit, Word.arithmeticFlag?, Option.map_some, decide_eq_true_eq,
        BitVec.lt_def]
  | shiftRight =>
      refine congrArg some ?_
      rw [BitVec.getLsbD, Nat.testBit_zero]
      simp only [decide_eq_true_eq]
      split <;> omega
  | shiftLeft =>
      refine congrArg some ?_
      rw [BitVec.msb_eq_decide]
      simp only [decide_eq_true_eq]
      split <;> omega

/-- The last digits that are assigned in group 8 are those of the operations. -/
theorem exists_digit {k : Nat} (hk : k ∈ [0x0, 0x1, 0x2, 0x3, 0x4, 0x5, 0x6, 0x7, 0xE]) :
    ∃ o : Operation, k = o.digit := by
  obtain ⟨o, ho⟩ := Option.ne_none_iff_exists'.1
    (mt (Word.ofDigit?_eq_none_iff k).1 (not_not_intro hk))
  exact ⟨o, Word.digit_of_ofDigit? ho⟩

end Operation

/-! ## Registers -/

namespace Machine

theorem reg_combineInto (m : Machine) (o : Operation) (x y r : Register) :
    (m.combineInto o x y).reg r =
      if x = r then o.result (m.reg x) (m.reg y)
      else if flagRegister = r then
        ((o.flag? (m.reg x) (m.reg y)).map fun f => if f then 1 else 0).getD (m.reg r)
      else m.reg r := by
  simp only [combineInto]
  split
  · next hnone =>
      rw [reg_setReg, hnone]
      simp
  · next f hsome =>
      rw [reg_setReg, setFlag, reg_setReg, hsome]
      rfl

/-- What a word of group 8 leaves of a machine.  If its first register is the flag register, the
result is what the flag register holds. -/
structure Combined (w : Word) (m m' : Machine) : Prop where
  result : ((m'.reg w.x).toNat : Int) =
    Word.arithmetic w.n.val (m.reg w.x).toNat (m.reg w.y).toNat
  flag : w.x ≠ flagRegister →
    ∀ f, Word.arithmeticFlag? w.n.val (m.reg w.x).toNat (m.reg w.y).toNat = some f →
      m'.flag.toNat = f
  unflagged : w.x ≠ flagRegister →
    Word.arithmeticFlag? w.n.val (m.reg w.x).toNat (m.reg w.y).toNat = none → m'.flag = m.flag
  others : ∀ r, r ≠ w.x → r ≠ flagRegister → m'.reg r = m.reg r
  elsewhere : { m' with registers := m.registers } = m

theorem execute_combine {w : Word} (hw : w.group = 0x8) {o : Operation} (ho : w.n.val = o.digit)
    (m : Machine) : m.execute w = .ok (m.combineInto o w.x w.y) :=
  execute_of_fits (i := .combine o w.x w.y) hw ⟨ho, rfl, rfl⟩ m

theorem combined_combineInto {w : Word} {o : Operation} (ho : w.n.val = o.digit) (m : Machine) :
    Combined w m (m.combineInto o w.x w.y) := by
  have hflag := o.map_flag? (m.reg w.x) (m.reg w.y)
  rw [← ho] at hflag
  constructor
  · rw [reg_combineInto, if_pos rfl, ho]
    exact o.toNat_result _ _
  · intro hx f hf
    rw [← hflag, Option.map_eq_some_iff] at hf
    obtain ⟨b, hb, rfl⟩ := hf
    rw [Machine.flag, reg_combineInto, if_neg hx, if_pos rfl, hb]
    cases b <;> rfl
  · intro hx hnone
    rw [← hflag, Option.map_eq_none_iff] at hnone
    rw [Machine.flag, reg_combineInto, if_neg hx, if_pos rfl, hnone]
    rfl
  · intro r hr hother
    rw [reg_combineInto, if_neg hr.symm, if_neg hother.symm]
  · simp only [combineInto]
    split
    · rfl
    · rfl

namespace Combined

variable {w : Word} {m m' : Machine} (h : Combined w m m') (hx : w.x ≠ flagRegister)
include h hx

/-- The carry and the byte of the sum make up the sum. -/
theorem sum_eq (hn : w.n.val = 0x4) :
    (m.reg w.x).toNat + (m.reg w.y).toNat = 256 * m'.flag.toNat + (m'.reg w.x).toNat := by
  have hresult := h.result
  have hflag := h.flag hx
  have ha := (m.reg w.x).isLt
  have hb := (m.reg w.y).isLt
  simp only [hn, Word.arithmetic, Word.arithmeticFlag?, Option.some.injEq] at hresult hflag
  rw [hflag _ rfl]
  split <;> omega

/-- The bit that goes out below is the rest of the half. -/
theorem half_eq (hn : w.n.val = 0x6) :
    (m.reg w.x).toNat = 2 * (m'.reg w.x).toNat + m'.flag.toNat := by
  have hresult := h.result
  have hflag := h.flag hx
  simp only [hn, Word.arithmetic, Word.arithmeticFlag?, Option.some.injEq] at hresult hflag
  rw [hflag _ rfl]
  omega

/-- The bit that goes out above is the carry of the double. -/
theorem double_eq (hn : w.n.val = 0xE) :
    2 * (m.reg w.x).toNat = 256 * m'.flag.toNat + (m'.reg w.x).toNat := by
  have hresult := h.result
  have hflag := h.flag hx
  simp only [hn, Word.arithmetic, Word.arithmeticFlag?, Option.some.injEq] at hresult hflag
  rw [hflag _ rfl]
  omega

omit hx in
/-- Subtracting what was added gives the register back: the register that was added is still there,
as it is neither the first one nor the flag register. -/
theorem sub_after_add (hn : w.n.val = 0x4) (hy : w.y ≠ flagRegister) (hxy : w.x ≠ w.y) {w' : Word}
    (hn' : w'.n.val = 0x5) (hx' : w'.x = w.x) (hy' : w'.y = w.y) {m'' : Machine}
    (h' : Combined w' m' m'') : m''.reg w.x = m.reg w.x := by
  have hsum := h.result
  have hdifference := h'.result
  have hkept := h.others w.y hxy.symm hy
  have ha := (m.reg w.x).isLt
  simp only [hn, hn', hx', hy', hkept, Word.arithmetic] at hsum hdifference
  refine BitVec.eq_of_toNat_eq ?_
  omega

end Combined

/-- A word of group 8 whose last digit is assigned ends without a fault and stores what its digit
says of the two registers as they were before.  Unless the flag register takes the result, result
and flag together are the exact sum, the halved and the doubled register.  An addition is taken back
by a subtraction of the same registers, if they are different and the second is not the flag
register. -/
theorem execute_arithmetic {w : Word} (hw : w.group = 0x8)
    (hn : w.n.val ∈ [0x0, 0x1, 0x2, 0x3, 0x4, 0x5, 0x6, 0x7, 0xE]) (m : Machine) :
    ∃ m', m.execute w = .ok m' ∧ Combined w m m' ∧
      (w.x ≠ flagRegister →
        (w.n.val = 0x4 →
          (m.reg w.x).toNat + (m.reg w.y).toNat = 256 * m'.flag.toNat + (m'.reg w.x).toNat) ∧
        (w.n.val = 0x6 → (m.reg w.x).toNat = 2 * (m'.reg w.x).toNat + m'.flag.toNat) ∧
        (w.n.val = 0xE →
          2 * (m.reg w.x).toNat = 256 * m'.flag.toNat + (m'.reg w.x).toNat)) ∧
      (w.n.val = 0x4 → w.y ≠ flagRegister → w.x ≠ w.y →
        ∀ w' : Word, w'.group = 0x8 → w'.n.val = 0x5 → w'.x = w.x → w'.y = w.y →
          ∃ m'', m'.execute w' = .ok m'' ∧ m''.reg w.x = m.reg w.x) := by
  obtain ⟨o, ho⟩ := Operation.exists_digit hn
  have hcombined := combined_combineInto ho m
  refine ⟨_, execute_combine hw ho m, hcombined, ?_, ?_⟩
  · intro hx
    exact ⟨hcombined.sum_eq hx, hcombined.half_eq hx, hcombined.double_eq hx⟩
  · intro hadd hy hxy w' hw' hsub hx' hy'
    have ho' : w'.n.val = Operation.sub.digit := hsub
    exact ⟨_, execute_combine hw' ho' _,
      hcombined.sub_after_add hadd hy hxy hsub hx' hy' (combined_combineInto ho' _)⟩

/-- Two registers whose sum does not fit a byte, and something in the flag register. -/
def operands : Machine := (((blank (.seeded 7)).setReg 1 200).setReg 2 100).setReg 15 7

/-- With the flag register first, the result takes the place of the flag. -/
theorem execute_arithmetic_with_carry :
    ((0x8124 : Word).group = 0x8 ∧ (0x8124 : Word).n.val = 0x4 ∧
      ∃ m', operands.execute 0x8124 = .ok m' ∧ (m'.reg 1).toNat = 44 ∧ m'.flag.toNat = 1 ∧
        ∃ m'', m'.execute 0x8125 = .ok m'' ∧ m''.reg 1 = 200) ∧
    (0x8F24 : Word).group = 0x8 ∧ (0x8F24 : Word).n.val = 0x4 ∧
      ∃ m', operands.execute 0x8F24 = .ok m' ∧ m'.flag.toNat = 107 := by
  have hx : (0x8124 : Word).x = 1 := by decide
  obtain ⟨m', hadd, hcombined, -, hback⟩ :=
    execute_arithmetic (w := 0x8124) (by decide) (by decide) operands
  have hresult : ((m'.reg 1).toNat : Int) = 44 := hcombined.result
  have hflag : m'.flag.toNat = 1 := hcombined.flag (by decide) 1 (by decide)
  obtain ⟨m'', hsub, hrestored⟩ := hback (by decide) (by decide) (by decide) 0x8125
    (by decide) (by decide) (by decide) (by decide)
  obtain ⟨m₁, haddFlag, hcombinedFlag, -⟩ :=
    execute_arithmetic (w := 0x8F24) (by decide) (by decide) operands
  have hwins : ((m₁.reg 15).toNat : Int) = 107 := hcombinedFlag.result
  exact ⟨⟨by decide, by decide, m', hadd, Int.ofNat_inj.1 hresult, hflag, m'', hsub, hrestored⟩,
    by decide, by decide, m₁, haddFlag, Int.ofNat_inj.1 hwins⟩

end Machine

end ChipEight
