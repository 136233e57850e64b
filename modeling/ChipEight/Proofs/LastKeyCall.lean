/-
# `ChipEight.Proofs.LastKeyCall` — a key is held if the last call about it says so

A host presses single keys, lets go of single keys and replaces all of them at once, each by
any integers.  Seen from one key most of these calls are about other keys; of those about it
only the last one counts, and a replacement is about every key.  So a replacement comes to
the same as letting go of all keys and pressing the new ones, in any order.

The two words that skip on a key ask for one held in just this sense.

**Proved here.**

    what one call does to one key                           (`isHeld_onKeys`)
    what any sequence of calls does to it                   (`isHeld_foldl_onKeys`)
    a replacement as single calls                           (`foldl_release_press`)
    what the skips on a key do                              (`execute_skip`)
    all of it for the machine                               (`held_by_last_call`)
-/
import ChipEight.Proofs.KeyWait

namespace ChipEight

namespace Action

/-- Whether a call is about a key. -/
def concerns (key : Int) : Action → Bool
  | .press other | .release other => other % 16 == key % 16
  | .setKeys _ => true
  | _ => false

/-- Whether a call about a key leaves it held. -/
def leavesHeld (key : Int) : Action → Bool
  | .press _ => true
  | .setKeys keys => keys.any fun other => other % 16 == key % 16
  | _ => false

/-- The last of some calls that is about a key. -/
def lastOn? (key : Int) (calls : List Action) : Option Action :=
  (calls.filter (concerns key)).getLast?

theorem lastOn?_append (key : Int) (before after : List Action) :
    lastOn? key (before ++ after) = (lastOn? key after).or (lastOn? key before) := by
  rw [lastOn?, List.filter_append, List.getLast?_append]
  rfl

theorem lastOn?_cons (key : Int) (a : Action) (calls : List Action) :
    lastOn? key (a :: calls) =
      (lastOn? key calls).or (if a.concerns key then some a else none) := by
  have hone : lastOn? key [a] = if a.concerns key then some a else none := by
    cases h : a.concerns key <;> simp [lastOn?, h]
  rw [← hone, ← lastOn?_append, List.singleton_append]

theorem lastOn?_eq_none_iff {key : Int} {calls : List Action} :
    lastOn? key calls = none ↔ ∀ a ∈ calls, a.concerns key = false := by
  simp [lastOn?]

theorem mem_of_lastOn? {key : Int} {calls : List Action} {a : Action}
    (h : lastOn? key calls = some a) : a ∈ calls ∧ a.concerns key = true :=
  List.mem_filter.1 (List.mem_of_getLast? h)

end Action

namespace Keypad

/-- Whether a key is held after some calls: as the last call about it says, or as before if there is
none. -/
def heldAfter (pad : Keypad) (calls : List Action) (key : Int) : Bool :=
  match Action.lastOn? key calls with
  | some a => a.leavesHeld key
  | none => pad.isHeld key

/-! ## Sequences of calls -/

theorem isHeld_onKeys (pad : Keypad) (a : Action) (key : Int) :
    (a.onKeys pad).isHeld key =
      if a.concerns key then a.leavesHeld key else pad.isHeld key := by
  cases a with
  | press other =>
      simp only [Action.onKeys, Action.concerns, Action.leavesHeld, isHeld_press, beq_iff_eq]
  | release other =>
      simp only [Action.onKeys, Action.concerns, Action.leavesHeld, isHeld_release, beq_iff_eq]
  | setKeys keys =>
      simp only [Action.onKeys, Action.concerns, Action.leavesHeld, isHeld_hold, if_true]
      rfl
  | _ => rfl

/-- By induction on the calls: the first of them counts only where no later one does. -/
theorem isHeld_foldl_onKeys (key : Int) (calls : List Action) : ∀ pad : Keypad,
    (calls.foldl (fun pad a => a.onKeys pad) pad).isHeld key = pad.heldAfter calls key := by
  induction calls with
  | nil => exact fun _ => rfl
  | cons a calls ih =>
      intro pad
      rw [List.foldl_cons, ih, heldAfter, heldAfter, isHeld_onKeys, Action.lastOn?_cons]
      cases Action.lastOn? key calls <;> cases a.concerns key <;> rfl

/-! ## A replacement as single calls -/

theorem heldAfter_presses (pad : Keypad) (before : List Action) (keys : List Int) (key : Int) :
    pad.heldAfter (before ++ keys.map .press) key =
      (keys.any (fun other => other % 16 == key % 16) || pad.heldAfter before key) := by
  rw [heldAfter, Action.lastOn?_append]
  cases hlast : Action.lastOn? key (keys.map .press) with
  | none =>
      have hnone : keys.any (fun other => other % 16 == key % 16) = false :=
        List.any_eq_false.2 fun other hother =>
          Bool.eq_false_iff.1 (Action.lastOn?_eq_none_iff.1 hlast _ (List.mem_map_of_mem hother))
      rw [hnone]
      rfl
  | some a =>
      obtain ⟨hmem, hconcerns⟩ := Action.mem_of_lastOn? hlast
      obtain ⟨other, hother, rfl⟩ := List.mem_map.1 hmem
      have hsome : keys.any (fun other => other % 16 == key % 16) = true :=
        List.any_eq_true.2 ⟨other, hother, hconcerns⟩
      rw [hsome]
      rfl

theorem heldAfter_releases (pad : Keypad) {keys : List Int} {key : Int}
    (h : ∃ other ∈ keys, other % 16 = key % 16) :
    pad.heldAfter (keys.map .release) key = false := by
  rw [heldAfter]
  cases hlast : Action.lastOn? key (keys.map .release) with
  | none =>
      obtain ⟨other, hother, hkey⟩ := h
      have hnot := Action.lastOn?_eq_none_iff.1 hlast _ (List.mem_map_of_mem hother)
      exact absurd hkey (beq_eq_false_iff_ne.1 hnot)
  | some a =>
      obtain ⟨other, -, rfl⟩ := List.mem_map.1 (Action.mem_of_lastOn? hlast).1
      rfl

theorem foldl_release_press (pad : Keypad) {keys order released : List Int}
    (horder : order.Perm keys)
    (hall : ∀ key : Fin 16, ∃ other ∈ released, other % 16 = key.val) :
    (released.map Action.release ++ order.map Action.press).foldl (fun pad a => a.onKeys pad) pad =
      .hold keys := by
  refine eq_of_isHeld fun key => ?_
  have hreleased : ∃ other ∈ released, other % 16 = (key.val : Int) % 16 := by
    obtain ⟨other, hother, hkey⟩ := hall key
    exact ⟨other, hother, by omega⟩
  rw [isHeld_foldl_onKeys, heldAfter_presses, heldAfter_releases pad hreleased, Bool.or_false,
    isHeld_hold, horder.any_eq]
  rfl

end Keypad

namespace Machine

/-! ## Skips -/

theorem execute_skip {c : Condition} {w : Word} (hgroup : w.group = c.group) (hfits : c.Fits w)
    (m : Machine) :
    m.execute w = .ok { m with pc := if m.holds c then (m.pc + 2) % 4096 else m.pc } := by
  have hexecute : m.execute w = .ok (m.apply (.skip c)) :=
    execute_of_fits (i := .skip c) hgroup hfits m
  rw [hexecute, apply, skipNext]
  split <;> rfl

/-- The host presses keys, lets go of them and replaces them, under any numbers, and does nothing
else.  A key is held after that if the last call about it presses it or replaces the keys by some
with its number modulo 16, or if no call is about it and it was held before; and the keypad is all
that has changed.  In a word that skips on a key the register gives the number of the key, and
whether the word skips is settled by those calls; it leaves everything but the program counter as
it is, the keypad too.  To replace the keys is to let go of all of them and to press the new ones,
in any order. -/
theorem held_by_last_call (m : Machine) :
    (∀ calls : List Action, (∀ a ∈ calls, a.OnKeys) →
      let polled := m.performAll calls
      { polled with keypad := m.keypad } = m ∧
      (∀ key : Int, polled.keypad.isHeld key = m.keypad.heldAfter calls key) ∧
      ∀ w : Word, w.group = 0xE →
        let held := m.keypad.heldAfter calls ((m.reg w.x).toNat % 16)
        (w.n.val = 0xE → polled.execute w =
          .ok { polled with pc := if held then (m.pc + 2) % 4096 else m.pc }) ∧
        (w.n.val = 0x1 → polled.execute w =
          .ok { polled with pc := if held then m.pc else (m.pc + 2) % 4096 })) ∧
    ∀ keys order released : List Int, order.Perm keys →
      (∀ key : Fin 16, ∃ other ∈ released, other % 16 = key.val) →
      m.performAll (released.map .release ++ order.map .press) = m.setKeys keys := by
  constructor
  · intro calls hcalls
    have hheld : ∀ key : Int,
        (m.performAll calls).keypad.isHeld key = m.keypad.heldAfter calls key := by
      intro key
      rw [performAll_onKeys calls hcalls]
      exact Keypad.isHeld_foldl_onKeys key calls m.keypad
    have hkept : { m.performAll calls with keypad := m.keypad } = m := by
      rw [performAll_onKeys calls hcalls]
    refine ⟨hkept, hheld, fun w hgroup => ?_⟩
    have hkey : ∀ n : Int, (m.performAll calls).keypad.isHeld n =
        m.keypad.heldAfter calls (n % 16) := fun n => by
      rw [← hheld, Keypad.isHeld_emod]
    have hreg : (m.performAll calls).reg w.x = m.reg w.x := by
      rw [performAll_onKeys calls hcalls]
      rfl
    have hpc : (m.performAll calls).pc = m.pc := by
      rw [performAll_onKeys calls hcalls]
    refine ⟨fun hn => ?_, fun hn => ?_⟩
    · rw [execute_skip (c := .held w.x) hgroup ⟨hn, rfl⟩, holds, hkey, hreg, hpc]
    · rw [execute_skip (c := .free w.x) hgroup ⟨hn, rfl⟩, holds, hkey, hreg, hpc]
      cases m.keypad.heldAfter calls ((m.reg w.x).toNat % 16) <;> rfl
  · intro keys order released horder hall
    have hcalls : ∀ a ∈ released.map Action.release ++ order.map Action.press, a.OnKeys := by
      intro a ha
      rcases List.mem_append.1 ha with ha | ha
      · obtain ⟨_, -, rfl⟩ := List.mem_map.1 ha
        trivial
      · obtain ⟨_, -, rfl⟩ := List.mem_map.1 ha
        trivial
    rw [performAll_onKeys _ hcalls, Keypad.foldl_release_press m.keypad horder hall]
    rfl

/-- A key is held before; two others are put in its place and one of them is let go of, under other
numbers.  The register of the skip names the one that is left. -/
theorem held_by_last_call_under_other_numbers :
    let m := ((blank (.seeded 7)).setReg 3 0xFF).press 7
    let calls : List Action := [.press 9, .setKeys [-1, 20], .release (-12), .press 2]
    let released : List Int := (List.range 16).map fun k : Nat => 100 - (k : Int)
    (∀ a ∈ calls, a.OnKeys) ∧ (m.performAll calls).keypad.isHeld 15 = true ∧
      (m.performAll calls).keypad.isHeld 4 = false ∧
      (m.performAll calls).keypad.isHeld 7 = false ∧
      Word.group 0xE39E = 0xE ∧ (Word.n 0xE39E).val = 0xE ∧
      (∃ next, (m.performAll calls).execute 0xE39E = .ok next ∧ next.pc = 2) ∧
      [20, 4, -1].Perm [-1, 20, (4 : Int)] ∧
      (∀ key : Fin 16, ∃ other ∈ released, other % 16 = key.val) ∧
      m.performAll (released.map .release ++ [20, 4, -1].map .press) = m.setKeys [-1, 20, 4] := by
  intro m calls released
  have hcalls : ∀ a ∈ calls, a.OnKeys := by simp [calls, Action.OnKeys]
  have horder : [20, 4, -1].Perm [-1, 20, (4 : Int)] := by decide
  have hall : ∀ key : Fin 16, ∃ other ∈ released, other % 16 = (key.val : Int) := by decide
  obtain ⟨hpolled, hreplaced⟩ := held_by_last_call m
  obtain ⟨-, hheld, hskips⟩ := hpolled calls hcalls
  obtain ⟨hskip, -⟩ := hskips 0xE39E (by decide)
  refine ⟨hcalls, (hheld 15).trans (by decide), (hheld 4).trans (by decide),
    (hheld 7).trans (by decide), by decide, by decide, ⟨_, hskip (by decide), ?_⟩, horder, hall,
    hreplaced _ _ _ horder hall⟩
  have hreg : m.reg (Word.x 0xE39E) = 0xFF := (reg_setReg _ _ _ _).trans (if_pos rfl)
  rw [hreg]
  rfl

end Machine

end ChipEight
