/-
# `ChipEight.Keypad` — sixteen keys, held or not

Every integer names a key: it stands for its class modulo 16.

**Proved here.**

    what is held after a press, a release, a replacement   (`isHeld_press`, `isHeld_release`, `isHeld_hold`)
    a keypad is what is held on it                         (`eq_of_isHeld`, `isHeld_emod`)
    there is no lowest held key exactly if none is held    (`lowest?_eq_none_iff`)
    otherwise it is held, and no held key is below it      (`le_of_lowest?`)
-/
import ChipEight.Residue

namespace ChipEight

/-- Which of the sixteen keys are held down. -/
structure Keypad where
  flags : Vector Bool 16

namespace Keypad

/-- No key held. -/
def empty : Keypad := ⟨Vector.replicate 16 false⟩

/-- Whether a key is held. -/
def isHeld (pad : Keypad) (key : Int) : Bool := pad.flags.get (residue 16 key)

/-- Presses a key. -/
def press (pad : Keypad) (key : Int) : Keypad :=
  ⟨pad.flags.set (residue 16 key) true (residue 16 key).isLt⟩

/-- Lets go of a key. -/
def release (pad : Keypad) (key : Int) : Keypad :=
  ⟨pad.flags.set (residue 16 key) false (residue 16 key).isLt⟩

/-- The keypad on which exactly the listed keys are held. -/
def hold (keys : List Int) : Keypad :=
  ⟨Vector.ofFn fun k => keys.any fun key => residue 16 key == k⟩

/-- The held keys in increasing order. -/
def toList (pad : Keypad) : List (Fin 16) :=
  (List.finRange 16).filter fun k => pad.isHeld (k.val : Int)

/-- The lowest held key, if any key is held. -/
def lowest? (pad : Keypad) : Option (Fin 16) := pad.toList.head?

/-- No key is held. -/
def Released (pad : Keypad) : Prop := ∀ key : Fin 16, pad.isHeld key.val = false

instance (pad : Keypad) : Decidable pad.Released := Nat.decidableForallFin _

/-- A keypad is what is held on it. -/
theorem eq_of_isHeld {pad pad' : Keypad}
    (h : ∀ key : Fin 16, pad.isHeld key.val = pad'.isHeld key.val) : pad = pad' := by
  obtain ⟨flags⟩ := pad
  obtain ⟨flags'⟩ := pad'
  congr 1
  refine Vector.ext fun k hk => ?_
  have hkey : residue 16 (k : Int) = ⟨k, hk⟩ := residue_natCast_of_fin ⟨k, hk⟩
  have hread := h ⟨k, hk⟩
  rwa [isHeld, isHeld, hkey] at hread

theorem isHeld_emod (pad : Keypad) (key : Int) : pad.isHeld (key % 16) = pad.isHeld key := by
  have hkey : residue 16 (key % 16) = residue 16 key :=
    (residue_eq_residue_iff 16 _ _).2 (Int.emod_emod_of_dvd key (Int.dvd_refl _))
  rw [isHeld, isHeld, hkey]

theorem isHeld_press (pad : Keypad) (key query : Int) :
    (pad.press key).isHeld query = if key % 16 = query % 16 then true else pad.isHeld query := by
  have h := residue_eq_residue_iff 16 key query
  simp only [Fin.ext_iff] at h
  simp only [isHeld, press, get_eq_getElem, Vector.getElem_set, h]
  rfl

theorem isHeld_release (pad : Keypad) (key query : Int) :
    (pad.release key).isHeld query = if key % 16 = query % 16 then false else pad.isHeld query := by
  have h := residue_eq_residue_iff 16 key query
  simp only [Fin.ext_iff] at h
  simp only [isHeld, release, get_eq_getElem, Vector.getElem_set, h]
  rfl

theorem isHeld_hold (keys : List Int) (query : Int) :
    (hold keys).isHeld query = keys.any fun key => decide (key % 16 = query % 16) := by
  have h := fun key => residue_eq_residue_iff 16 key query
  simp only [isHeld, hold, get_eq_getElem, Vector.getElem_ofFn]
  congr 1
  funext key
  rw [Bool.eq_iff_iff, beq_iff_eq, decide_eq_true_iff]
  exact h key

theorem lowest?_eq_none_iff (pad : Keypad) : pad.lowest? = none ↔ pad.Released := by
  rw [lowest?, List.head?_eq_none_iff, toList, List.filter_eq_nil_iff]
  constructor
  · exact fun h key => Bool.eq_false_iff.2 (h key (List.mem_finRange key))
  · exact fun h key _ => Bool.eq_false_iff.1 (h key)

theorem mem_toList_iff {pad : Keypad} {key : Fin 16} :
    key ∈ pad.toList ↔ pad.isHeld key.val = true := by
  simp only [toList, List.mem_filter, List.mem_finRange, true_and]

theorem le_of_lowest? {pad : Keypad} {key : Fin 16} (h : pad.lowest? = some key) :
    pad.isHeld key.val = true ∧ ∀ other : Fin 16, pad.isHeld other.val = true → key ≤ other := by
  have hordered : pad.toList.Pairwise (· < ·) := (List.pairwise_lt_finRange 16).filter _
  obtain ⟨higher, hlist⟩ := List.head?_eq_some_iff.1 h
  rw [hlist, List.pairwise_cons] at hordered
  refine ⟨mem_toList_iff.1 (hlist ▸ List.mem_cons_self), fun other hother => ?_⟩
  have hmem : other ∈ key :: higher := hlist ▸ mem_toList_iff.2 hother
  rcases List.mem_cons.1 hmem with rfl | hmem
  · exact Fin.le_refl _
  · exact Fin.le_of_lt (hordered.1 other hmem)

end Keypad

end ChipEight
