/-
# `ChipEight.CommandLine.KeyList` — lists of keys such as `1,A,f`

A key is written as a hexadecimal integer from 0 to 15.  The keys of a list are
separated by commas; blanks around a key are dropped, and so are parts that are
blank altogether.  The first part that is no key decides how a list is refused.

**Proved here.**

    a part is a key if it is read as its number    (`key_eq_ok_iff`)
    a list of two parts is the list of both        (`parts_append_comma`)
-/
import ChipEight.Text.Integer
import ChipEight.Text.Quoted

namespace ChipEight

/-- A part of a list that is no key. -/
inductive KeyError where
  | unreadable (part : List Char)
  | outOfRange (part : List Char)
  deriving DecidableEq, Repr

/-- The description of a key error. -/
def KeyError.message : KeyError → String
  | .unreadable part => "not a hex key: " ++ Text.quoted part
  | .outOfRange part => "key out of range: " ++ Text.quoted part

namespace KeyList

/-- The parts of a list that are not blank, without the blanks around them. -/
def parts (cs : List Char) : List (List Char) :=
  ((Text.splitOn ',' cs).map Text.trim).filter fun part => !part.isEmpty

/-- The key that a part stands for. -/
def key (part : List Char) : Except KeyError (Fin 16) :=
  match Text.readInt? Text.hexFormat part with
  | none => .error (.unreadable part)
  | some n =>
      if h : 0 ≤ n ∧ n ≤ 0xF then .ok ⟨n.toNat, by omega⟩ else .error (.outOfRange part)

/-- The keys of a list, in order. -/
def parse (cs : List Char) : Except KeyError (List (Fin 16)) := (parts cs).mapM key

/-- A part is a key if it is read as the number of that key. -/
theorem key_eq_ok_iff {part : List Char} {k : Fin 16} :
    key part = .ok k ↔ Text.readInt? Text.hexFormat part = some (k.val : Int) := by
  have hlt := k.isLt
  rw [key]
  cases Text.readInt? Text.hexFormat part with
  | none =>
      constructor
      · intro h
        cases h
      · intro h
        cases h
  | some n =>
      constructor
      · intro h
        by_cases hrange : 0 ≤ n ∧ n ≤ 0xF
        · simp only [dif_pos hrange, Except.ok.injEq] at h
          rw [← h, Int.toNat_of_nonneg hrange.1]
        · simp only [dif_neg hrange] at h
          cases h
      · intro h
        obtain rfl : n = k.val := Option.some.inj h
        exact dif_pos ⟨by omega, by omega⟩

theorem parts_append_comma (a b : List Char) : parts (a ++ ',' :: b) = parts a ++ parts b := by
  simp [parts, Text.splitOn_append_cons]

end KeyList

end ChipEight
