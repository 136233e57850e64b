/-
# `ChipEight.Proofs.Plain.Registers` — registers, timers and index in plain numbers

The arithmetic of the machine is done on unbounded numbers and cut to a byte only
when the result is stored.  A flag is stored uncut, before the result.

**Proved here**, for every machine and every word:

    cutting the unbounded result to a byte gives the byte operation     (`ofInt_add`, `ofInt_sub`, ...)
    the handler ends without a failure, in the plain state
    of the machine after the instruction                                (`run_logic`, `run_flagged`, ...)
-/
import ChipEight.Proofs.Plain.Control

namespace ChipEight.Plain

/-! ## Cutting to a byte -/

theorem ofInt_toNat (a : Byte) : BitVec.ofInt 8 a.toNat = a := by
  rw [BitVec.ofInt_natCast, BitVec.ofNat_toNat, BitVec.setWidth_eq]

theorem ofInt_add (a b : Byte) : BitVec.ofInt 8 ((a.toNat : Int) + b.toNat) = a + b := by
  apply BitVec.eq_of_toNat_eq
  rw [BitVec.toNat_ofInt, BitVec.toNat_add]
  omega

theorem ofInt_sub (a b : Byte) : BitVec.ofInt 8 ((a.toNat : Int) - b.toNat) = a - b := by
  have hb := b.isLt
  apply BitVec.eq_of_toNat_eq
  rw [BitVec.toNat_ofInt, BitVec.toNat_sub]
  omega

theorem ofInt_shiftLeft (a : Byte) : BitVec.ofInt 8 (a.toNat <<< 1 : Nat) = a <<< 1 := by
  apply BitVec.eq_of_toNat_eq
  rw [BitVec.ofInt_natCast, BitVec.toNat_ofNat, BitVec.toNat_shiftLeft]

/-! ## Storing in a register -/

variable (m : Machine) (w : Word)

theorem run_setRegister_byte (x : Register) {v : Int} {b : Byte} (h : BitVec.ofInt 8 v = b) :
    (setRegister x.val v).run m.plain = .ok () (m.setReg x b).plain := by
  rw [run_setRegister, Machine.setRegister, residue_natCast_of_fin, h]

def put (op : Nat) : Exec Unit := setRegister (x op) (kk op)

def bump (op : Nat) : Exec Unit := do
  let a ← register (x op)
  setRegister (x op) ((a : Int) + kk op)

def copy (op : Nat) : Exec Unit := do
  let b ← register (y op)
  setRegister (x op) b

theorem run_put : (put w.toNat).run m.plain = .ok () (m.apply (.put w.x w.kk)).plain := by
  rw [put, x_word, kk_word]
  exact run_setRegister_byte m w.x (ofInt_toNat w.kk)

theorem run_bump : (bump w.toNat).run m.plain = .ok () (m.apply (.bump w.x w.kk)).plain := by
  simp only [bump, EStateM.run_bind, x_word, run_register, kk_word]
  exact run_setRegister_byte m w.x (ofInt_add (m.reg w.x) w.kk)

theorem run_copy :
    (copy w.toNat).run m.plain = .ok () (m.apply (.combine .copy w.x w.y)).plain := by
  simp only [copy, EStateM.run_bind, x_word, y_word, run_register]
  exact run_setRegister_byte m w.x (ofInt_toNat (m.reg w.y))

/-! ## Operations -/

/-- Combines two registers bit by bit. -/
def logic (f : Nat → Nat → Nat) (op : Nat) : Exec Unit := do
  let a ← register (x op)
  let b ← register (y op)
  setRegister (x op) (f a b)

/-- Stores a flag and then the result. -/
def flagged (flag : Nat → Nat → Nat) (result : Nat → Nat → Int) (op : Nat) : Exec Unit := do
  let a ← register (x op)
  let b ← register (y op)
  putRegister 15 (flag a b)
  setRegister (x op) (result a b)

/-- Stores the bit shifted out and then the result; the second register is not read. -/
def shift (flag result : Nat → Nat) (op : Nat) : Exec Unit := do
  let a ← register (x op)
  putRegister 15 (flag a)
  setRegister (x op) (result a)

def add : Nat → Exec Unit := flagged (fun a b => if 0xFF < a + b then 1 else 0) fun a b => a + b

def sub : Nat → Exec Unit := flagged (fun a b => if b < a then 1 else 0) fun a b => a - b

def subFrom : Nat → Exec Unit := flagged (fun a b => if a < b then 1 else 0) fun a b => b - a

def shiftRight : Nat → Exec Unit := shift (fun a => a &&& 0x01) fun a => a >>> 1

def shiftLeft : Nat → Exec Unit := shift (fun a => (a &&& 0x80) >>> 7) fun a => a <<< 1

theorem run_putFlag {v : Nat} {f : Bool} (h : v = f.toNat) :
    (putRegister 15 v).run m.plain = .ok () (m.setFlag f).plain := by
  have hv : v = (if f then 1 else 0 : Byte).toNat := by
    rw [h]
    cases f <;> rfl
  rw [hv]
  exact run_putRegister m Machine.flagRegister _

theorem run_logic {f : Nat → Nat → Nat} {o : Operation}
    (hnone : ∀ a b, o.flag? a b = none)
    (hresult : ∀ a b : Byte, f a.toNat b.toNat = (o.result a b).toNat) :
    (logic f w.toNat).run m.plain = .ok () (m.apply (.combine o w.x w.y)).plain := by
  have happly : m.apply (.combine o w.x w.y) =
      m.setReg w.x (o.result (m.reg w.x) (m.reg w.y)) := by
    simp only [Machine.apply, Machine.combineInto, hnone]
  simp only [logic, EStateM.run_bind, x_word, y_word, run_register, hresult, happly]
  exact run_setRegister_byte m w.x (ofInt_toNat _)

theorem run_flagged {flag : Nat → Nat → Nat} {result : Nat → Nat → Int} {o : Operation}
    {f : Byte → Byte → Bool} (hsome : ∀ a b, o.flag? a b = some (f a b))
    (hflag : ∀ a b : Byte, flag a.toNat b.toNat = (f a b).toNat)
    (hresult : ∀ a b : Byte, BitVec.ofInt 8 (result a.toNat b.toNat) = o.result a b) :
    (flagged flag result w.toNat).run m.plain = .ok () (m.apply (.combine o w.x w.y)).plain := by
  have happly : m.apply (.combine o w.x w.y) = (m.setFlag (f (m.reg w.x) (m.reg w.y))).setReg w.x
      (o.result (m.reg w.x) (m.reg w.y)) := by
    simp only [Machine.apply, Machine.combineInto, hsome]
  simp only [flagged, EStateM.run_bind, x_word, y_word, run_register, happly,
    run_putFlag m (hflag (m.reg w.x) (m.reg w.y))]
  exact run_setRegister_byte _ w.x (hresult (m.reg w.x) (m.reg w.y))

theorem run_shift {flag result : Nat → Nat} {o : Operation} {f : Byte → Bool}
    (hsome : ∀ a b, o.flag? a b = some (f a))
    (hflag : ∀ a : Byte, flag a.toNat = (f a).toNat)
    (hresult : ∀ a b : Byte, BitVec.ofInt 8 (result a.toNat) = o.result a b) :
    (shift flag result w.toNat).run m.plain = .ok () (m.apply (.combine o w.x w.y)).plain := by
  have happly : m.apply (.combine o w.x w.y) = (m.setFlag (f (m.reg w.x))).setReg w.x
      (o.result (m.reg w.x) (m.reg w.y)) := by
    simp only [Machine.apply, Machine.combineInto, hsome]
  simp only [shift, EStateM.run_bind, x_word, run_register, happly,
    run_putFlag m (hflag (m.reg w.x))]
  exact run_setRegister_byte _ w.x (hresult (m.reg w.x) (m.reg w.y))

theorem ite_eq_toNat (p : Prop) [Decidable p] : (if p then 1 else 0) = (decide p).toNat := by
  by_cases h : p <;> simp [h]

theorem run_add : (add w.toNat).run m.plain = .ok () (m.apply (.combine .add w.x w.y)).plain :=
  run_flagged m w (fun _ _ => rfl) (fun _ _ => ite_eq_toNat _) ofInt_add

theorem run_sub : (sub w.toNat).run m.plain = .ok () (m.apply (.combine .sub w.x w.y)).plain :=
  run_flagged m w (fun _ _ => rfl) (fun _ _ => ite_eq_toNat _) ofInt_sub

theorem run_subFrom :
    (subFrom w.toNat).run m.plain = .ok () (m.apply (.combine .subFrom w.x w.y)).plain :=
  run_flagged m w (fun _ _ => rfl) (fun _ _ => ite_eq_toNat _) fun a b => ofInt_sub b a

theorem run_shiftRight :
    (shiftRight w.toNat).run m.plain = .ok () (m.apply (.combine .shiftRight w.x w.y)).plain := by
  refine run_shift m w (fun _ _ => rfl) ?_ ?_
  · intro a
    rw [Nat.and_one_is_mod, BitVec.getLsbD, Nat.testBit_zero, ← ite_eq_toNat]
    split <;> omega
  · intro a _
    rw [← BitVec.toNat_ushiftRight]
    exact ofInt_toNat (a >>> 1)

theorem run_shiftLeft :
    (shiftLeft w.toNat).run m.plain = .ok () (m.apply (.combine .shiftLeft w.x w.y)).plain := by
  refine run_shift m w (fun _ _ => rfl) ?_ ?_
  · intro a
    have hlt := a.isLt
    have hmask : (a.toNat &&& 0x80) >>> 7 = a.toNat / 0x80 % 2 := masked a.toNat 1 7
    rw [hmask, BitVec.msb_eq_decide, ← ite_eq_toNat]
    split <;> omega
  · intro a _
    exact ofInt_shiftLeft a

/-! ## Random bytes, timers and index -/

/-- Draws a number below 256 and keeps the masked bits. -/
def random (op : Nat) : Exec Unit := do
  let (b, source) := (← get).source.next
  modify fun s => { s with source }
  setRegister (x op) (b.toNat &&& kk op : Nat)

def readDelay (op : Nat) : Exec Unit := do setRegister (x op) (← get).delay

def setDelay (op : Nat) : Exec Unit := do
  let v ← register (x op)
  modify fun s => { s with delay := v }

def setSound (op : Nat) : Exec Unit := do
  let v ← register (x op)
  modify fun s => { s with sound := v }

def point (op : Nat) : Exec Unit := modify fun s => { s with index := nnn op }

def advance (op : Nat) : Exec Unit := do
  let v ← register (x op)
  modify fun s => { s with index := (s.index + v) % 4096 }

def glyph (op : Nat) : Exec Unit := do
  let v ← register (x op)
  modify fun s => { s with index := (Font.base + Font.glyphSize * v) % 4096 }

/-- Stores the number of the first key held; with none held, goes back to the same word. -/
def awaitKey (op : Nat) : Exec Unit := do
  match (← get).keypad.findIdx? id with
  | some key => setRegister (x op) key
  | none => rewind

theorem run_random : (random w.toNat).run m.plain = .ok () (m.apply (.random w.x w.kk)).plain := by
  simp only [random, EStateM.run_bind, EStateM.run_get, EStateM.run_modify, x_word, kk_word]
  rw [← BitVec.toNat_and]
  exact run_setRegister_byte { m with source := m.source.next.2 } w.x (ofInt_toNat _)

theorem run_readDelay :
    (readDelay w.toNat).run m.plain = .ok () (m.apply (.readDelay w.x)).plain := by
  simp only [readDelay, EStateM.run_bind, EStateM.run_get, x_word]
  exact run_setRegister_byte m w.x rfl

theorem run_setDelay : (setDelay w.toNat).run m.plain = .ok () (m.apply (.setDelay w.x)).plain := by
  simp only [setDelay, EStateM.run_bind, x_word, run_register]
  rfl

theorem run_setSound : (setSound w.toNat).run m.plain = .ok () (m.apply (.setSound w.x)).plain := by
  simp only [setSound, EStateM.run_bind, x_word, run_register]
  rfl

theorem run_point : (point w.toNat).run m.plain = .ok () (m.apply (.point w.nnn)).plain := by
  simp only [point, nnn_word]
  rfl

theorem run_advance : (advance w.toNat).run m.plain = .ok () (m.apply (.advance w.x)).plain := by
  simp only [advance, EStateM.run_bind, x_word, run_register]
  rfl

theorem run_glyph : (glyph w.toNat).run m.plain = .ok () (m.apply (.glyph w.x)).plain := by
  have haddr : (Font.base + Font.glyphSize * ((m.reg w.x).toNat : Int)) % 4096 =
      (Font.address (m.reg w.x).toNat).val := (residue_val 4096 _).symm
  simp only [glyph, EStateM.run_bind, x_word, run_register, haddr]
  rfl

theorem isHeld_val (pad : Keypad) (k : Fin 16) : pad.isHeld k.val = pad.flags.get k := by
  simp only [Keypad.isHeld, get_eq_getElem, residue_natCast_val, Nat.mod_eq_of_lt k.isLt]

theorem map_find?_finRange {size : Nat} (p : Fin size → Bool) :
    ((List.finRange size).find? p).map Fin.val = (List.finRange size).findIdx? p := by
  rw [List.find?_eq_bind_findIdx?_getElem?]
  cases h : (List.finRange size).findIdx? p with
  | none => rfl
  | some i =>
      obtain ⟨hlt, -⟩ := List.findIdx?_eq_some_iff_getElem.1 h
      simp [List.getElem?_eq_getElem hlt]

/-- The first key held in the list of flags is the lowest key held on the pad. -/
theorem findIdx?_flags (pad : Keypad) :
    pad.flags.toList.findIdx? id = pad.lowest?.map Fin.val := by
  have hflags : pad.flags.toList = (List.finRange 16).map fun k => pad.isHeld k.val := by
    apply List.ext_getElem
    · simp
    · intro k _ _
      simp [isHeld_val, get_eq_getElem]
  rw [hflags, List.findIdx?_map, Keypad.lowest?, Keypad.toList, List.head?_filter,
    map_find?_finRange]
  rfl

theorem run_awaitKey : (awaitKey w.toNat).run m.plain = .ok () (m.apply (.awaitKey w.x)).plain := by
  simp only [awaitKey, EStateM.run_bind, EStateM.run_get]
  rw [show m.plain.keypad = m.keypad.flags.toList from rfl, findIdx?_flags, Machine.apply,
    Machine.awaitKeyInto]
  cases m.keypad.lowest? with
  | none => exact run_rewind m
  | some key =>
      simp only [Option.map_some, x_word]
      exact run_setRegister_byte m w.x (BitVec.ofInt_natCast 8 key.val)

end ChipEight.Plain
