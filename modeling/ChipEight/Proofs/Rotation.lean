/-
# `ChipEight.Proofs.Rotation` — turning a row round the edge

A row is turned in plain numbers by two shifts, one of which leaves the 64 bits of the row,
and a mask.  The two halves neither overlap nor lose a bit, at any amount: each bit of the
turned row is one bit of the row, found by counting on round the edge.  What is known of
the turns follows from this alone: turns add up, a turn is undone by the opposite one, and
an operation that combines two rows bit by bit may be done before a turn or after it.

**Proved here.**

    which bit of a row comes to which place                 (`getLsbD_rotate`)
    two turns are one, and opposite turns cancel            (`rotate_rotate`, `rotate_neg`)
    operations on bits and turns change places              (`rotate_bitwise`)
    the same in plain numbers                               (`rotateRight_laws`)
-/
import ChipEight.Proofs.Plain.Sprite

namespace ChipEight

namespace Row

/-- The bit at a place comes from as many places further up as the row is turned. -/
theorem getLsbD_rotate (row : Row) (amount : Int) {k : Nat} (hk : k < 64) :
    (row.rotate amount).getLsbD k = row.getLsbD ((k + amount) % 64).toNat := by
  have hamount := residue_val 64 amount
  have hlt := (residue 64 amount).isLt
  rw [rotate, BitVec.getLsbD_rotateRight, Nat.mod_eq_of_lt hlt]
  generalize (residue 64 amount).val = a at *
  -- below the seam the row was shifted down, above it the low bits have come round
  by_cases hseam : k < 64 - a
  · rw [decide_eq_true hseam, cond_true]
    congr 1
    omega
  · rw [decide_eq_false hseam, cond_false, decide_eq_true hk, Bool.true_and]
    congr 1
    omega

theorem rotate_rotate (row : Row) (a b : Int) : (row.rotate a).rotate b = row.rotate (a + b) := by
  refine BitVec.eq_of_getLsbD_eq fun k hk => ?_
  rw [getLsbD_rotate _ b hk, getLsbD_rotate _ a (by omega), getLsbD_rotate _ (a + b) hk]
  congr 1
  omega

theorem rotate_zero (row : Row) : row.rotate 0 = row := by
  refine BitVec.eq_of_getLsbD_eq fun k hk => ?_
  rw [getLsbD_rotate _ 0 hk]
  congr 1
  omega

theorem rotate_neg (row : Row) (a : Int) : (row.rotate a).rotate (-a) = row := by
  rw [rotate_rotate, Int.add_right_neg, rotate_zero]

/-- An operation that makes each bit of its result of the two bits at the same place. -/
theorem rotate_bitwise {op : Row → Row → Row} {f : Bool → Bool → Bool}
    (hop : ∀ (row other : Row) (k : Nat),
      (op row other).getLsbD k = f (row.getLsbD k) (other.getLsbD k))
    (row other : Row) (amount : Int) :
    (op row other).rotate amount = op (row.rotate amount) (other.rotate amount) := by
  refine BitVec.eq_of_getLsbD_eq fun k hk => ?_
  rw [getLsbD_rotate _ _ hk, hop, hop, getLsbD_rotate _ _ hk, getLsbD_rotate _ _ hk]

end Row

namespace Plain

/-- Every number of 64 bits is a row. -/
theorem exists_row {value : Nat} (h : value < 0x10000000000000000) :
    ∃ row : Row, row.toNat = value :=
  ⟨BitVec.ofNat 64 value, Nat.mod_eq_of_lt h⟩

/-- Turning a number of 64 bits by any integer is turning the row: it gives a number of 64 bits, in
which each bit is the bit of the number so many places further up, counted round the edge.  Two
turns are one, opposite turns cancel, and a turn can be done before or after an exclusive or, an and
and an or. -/
theorem rotateRight_laws {value : Nat} (hvalue : value < 0x10000000000000000) (amount : Int) :
    rotateRight value amount = (Row.rotate (BitVec.ofNat 64 value) amount).toNat ∧
    rotateRight value amount < 0x10000000000000000 ∧
    (∀ k : Nat, k < 64 →
      (rotateRight value amount).testBit k = value.testBit ((k + amount) % 64).toNat) ∧
    (∀ more : Int,
      rotateRight (rotateRight value amount) more = rotateRight value (amount + more)) ∧
    rotateRight (rotateRight value amount) (-amount) = value ∧
    ∀ other : Nat, other < 0x10000000000000000 →
      rotateRight (value ^^^ other) amount =
          rotateRight value amount ^^^ rotateRight other amount ∧
        rotateRight (value &&& other) amount =
          rotateRight value amount &&& rotateRight other amount ∧
        rotateRight (value ||| other) amount =
          rotateRight value amount ||| rotateRight other amount := by
  obtain ⟨row, rfl⟩ := exists_row hvalue
  refine ⟨?_, ?_, fun k hk => ?_, fun more => ?_, ?_, fun other hother => ?_⟩
  · rw [rotateRight_row, BitVec.ofNat_toNat, BitVec.setWidth_eq]
  · rw [rotateRight_row]
    exact BitVec.isLt _
  · rw [rotateRight_row, BitVec.testBit_toNat, BitVec.testBit_toNat,
      Row.getLsbD_rotate row amount hk]
  · rw [rotateRight_row, rotateRight_row, rotateRight_row, Row.rotate_rotate]
  · rw [rotateRight_row, rotateRight_row, Row.rotate_neg]
  · obtain ⟨otherRow, rfl⟩ := exists_row hother
    rw [← BitVec.toNat_xor, ← BitVec.toNat_and, ← BitVec.toNat_or]
    simp only [rotateRight_row]
    rw [← BitVec.toNat_xor, ← BitVec.toNat_and, ← BitVec.toNat_or]
    exact ⟨congrArg BitVec.toNat (Row.rotate_bitwise (fun _ _ _ => BitVec.getLsbD_xor) _ _ _),
      congrArg BitVec.toNat (Row.rotate_bitwise (fun _ _ _ => BitVec.getLsbD_and) _ _ _),
      congrArg BitVec.toNat (Row.rotate_bitwise (fun _ _ _ => BitVec.getLsbD_or) _ _ _)⟩

/-- A number with bits at both ends, which is turned by one place, by more than its width to the
left, and twice all the way round. -/
theorem rotateRight_laws_at_the_ends :
    let value := 0x8000000000000003
    value < 0x10000000000000000 ∧ rotateRight value 1 = 0xC000000000000001 ∧
      rotateRight value 1 < 0x10000000000000000 ∧
      (rotateRight value (-65)).testBit 0 = value.testBit 63 ∧
      rotateRight (rotateRight value 1) (-65) = rotateRight value (1 + -65) ∧
      rotateRight (rotateRight value 128) (-128) = value ∧
      rotateRight (value ^^^ 1) 1 = rotateRight value 1 ^^^ rotateRight 1 1 := by
  intro value
  have hvalue : value < 0x10000000000000000 := by decide
  obtain ⟨-, hone, -, hmore, -, hother⟩ := rotateRight_laws hvalue 1
  obtain ⟨-, -, hbits, -, -, -⟩ := rotateRight_laws hvalue (-65)
  obtain ⟨-, -, -, -, hback, -⟩ := rotateRight_laws hvalue 128
  exact ⟨hvalue, by decide, hone, hbits 0 (by decide), hmore (-65), hback,
    (hother 1 (by decide)).1⟩

end Plain

end ChipEight
