/-
# `ChipEight.Residue` — integers taken modulo a positive number

Addresses, keys, register numbers and screen coordinates are plain integers for
the host and wrap inside the machine.  `residue n i` is the class of `i` modulo
`n` as an index below `n`: the floored remainder, so negative integers count
from the end.

**Proved here.**

    residue n i is the remainder of i            (`residue_val`)
    two integers share a class iff n divides     (`residue_eq_residue_iff`)
    on natural numbers it is the usual `%`       (`residue_natCast_val`)
    an index is its own class                    (`residue_natCast_of_fin`)
-/

namespace ChipEight

/-- A number modulo which integers are taken. -/
abbrev Modulus (n : Nat) : Prop := @NeZero Nat Zero.ofOfNat0 n

instance modulusSixteen : Modulus 16 := ⟨by decide⟩

instance modulusRows : Modulus 32 := ⟨by decide⟩

instance modulusColumns : Modulus 64 := ⟨by decide⟩

instance modulusAddress : Modulus 4096 := ⟨by decide⟩

/-- The class of `i` modulo `n`, as an index below `n`. -/
def residue (n : Nat) [Modulus n] (i : Int) : Fin n :=
  ⟨(i % (n : Int)).toNat, by
    have hn : (n : Int) ≠ 0 := by exact_mod_cast NeZero.ne n
    have := Int.emod_nonneg i hn
    have := Int.emod_lt_of_pos i (by omega : (0 : Int) < n)
    omega⟩

/-- A vector has its entry at a class where it has it at the number. -/
theorem get_eq_getElem {α : Type} {n : Nat} (xs : Vector α n) (k : Fin n) :
    xs.get k = xs[k.val] := rfl

/-- As an integer, the class of `i` is its floored remainder. -/
theorem residue_val (n : Nat) [Modulus n] (i : Int) : ((residue n i).val : Int) = i % (n : Int) := by
  have hn : (n : Int) ≠ 0 := by exact_mod_cast NeZero.ne n
  have := Int.emod_nonneg i hn
  simp only [residue]
  omega

/-- Two integers share a class exactly when they leave the same remainder. -/
theorem residue_eq_residue_iff (n : Nat) [Modulus n] (i j : Int) :
    residue n i = residue n j ↔ i % (n : Int) = j % (n : Int) := by
  rw [← residue_val n i, ← residue_val n j, Fin.ext_iff]
  omega

/-- On natural numbers the class is the usual remainder. -/
theorem residue_natCast_val (n : Nat) [Modulus n] (k : Nat) : (residue n (k : Int)).val = k % n := by
  have h := residue_val n (k : Int)
  rw [← Int.natCast_emod] at h
  exact_mod_cast h

/-- An index is its own class. -/
theorem residue_natCast_of_fin {n : Nat} [Modulus n] (k : Fin n) : residue n (k.val : Int) = k :=
  Fin.ext ((residue_natCast_val n k.val).trans (Nat.mod_eq_of_lt k.isLt))

end ChipEight
