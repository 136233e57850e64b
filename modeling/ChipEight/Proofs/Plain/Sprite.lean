/-
# `ChipEight.Proofs.Plain.Sprite` — drawing in plain numbers

A sprite byte is rotated into place inside an unbounded number, whose low 64 bits
are then kept, and turned over in its row; after each row the flag is set if a bit
of the sprite is missing there, for then it has put out a lit pixel.

**Proved here**, for every machine and every word:

    rotation of a number is rotation of a row              (`rotateRight_row`)
    a bit is missing exactly if a lit pixel went out       (`missing_iff_erases`)
    the handler ends without a failure, in the plain state
    of the machine after the instruction                   (`run_draw`)
-/
import ChipEight.Proofs.Plain.Memory

namespace ChipEight.Plain

/-- Rotation of the low 64 bits, by any amount. -/
def rotateRight (value : Nat) (amount : Int) : Nat :=
  let a := (amount % 64).toNat
  (value >>> a ||| value <<< (64 - a)) &&& (1 <<< 64 - 1)

/-- Draws the sprite byte number `row`, counted from the index and from row `top` of the screen. -/
def drawRow (column top row : Nat) : Exec Unit := do
  let sprite ← read ((← get).index + row)
  let bits := rotateRight sprite (column + 8 : Nat)
  let place := (top + row) % 32
  let old ← entry (← get).video (place : Nat)
  let video ← replaced (← get).video (place : Nat) (old ^^^ bits)
  modify fun s => { s with video }
  let new ← entry (← get).video (place : Nat)
  if new &&& bits ≠ bits then putRegister 15 1 else return ()

/-- Draws `count` sprite bytes from number `row` on. -/
def drawRows (column top row : Nat) : Nat → Exec Unit
  | 0 => return ()
  | count + 1 => do
      drawRow column top row
      drawRows column top (row + 1) count

def draw (op : Nat) : Exec Unit := do
  let vx ← register (x op)
  let vy ← register (y op)
  putRegister 15 0
  drawRows (vx % 64) (vy % 32) 0 (n op)

theorem rotateRight_row (row : Row) (amount : Int) :
    rotateRight row.toNat amount = (row.rotate amount).toNat := by
  have hamount : (amount % 64).toNat = (residue 64 amount).val := rfl
  have hlt := (residue 64 amount).isLt
  have hright : row.toNat >>> (residue 64 amount).val < 2 ^ 64 := by
    rw [← BitVec.toNat_ushiftRight]
    exact BitVec.isLt _
  rw [Row.rotate, BitVec.rotateRight_def, BitVec.toNat_or, BitVec.toNat_ushiftRight,
    BitVec.toNat_shiftLeft, Nat.mod_eq_of_lt hlt]
  simp only [rotateRight, hamount, Nat.one_shiftLeft]
  rw [Nat.and_two_pow_sub_one_eq_mod, Nat.or_mod_two_pow, Nat.mod_eq_of_lt hright]

theorem rotateRight_sprite (b : Byte) (column : Nat) :
    rotateRight b.toNat (column + 8 : Nat) = (Row.sprite b column).toNat := by
  have hb : b.toNat = (b.setWidth 64).toNat := by
    have := b.isLt
    rw [BitVec.toNat_setWidth]
    omega
  rw [hb, rotateRight_row]
  rfl

/-- After a row is turned over, a bit of the sprite is missing exactly if it was set before. -/
theorem missing_iff_erases (row bits : Row) :
    ((row ^^^ bits).toNat &&& bits.toNat ≠ bits.toNat) ↔ (row &&& bits != 0) = true := by
  have hand : (row ^^^ bits) &&& bits = (row &&& bits) ^^^ bits := by
    ext i
    simp only [BitVec.getElem_and, BitVec.getElem_xor]
    cases row[i] <;> cases bits[i] <;> rfl
  have hzero : (row &&& bits) ^^^ bits = bits ↔ row &&& bits = 0 := by
    constructor
    · intro h
      exact (BitVec.xor_left_inj bits).1 (h.trans BitVec.zero_xor.symm)
    · intro h
      rw [h]
      exact BitVec.zero_xor
  rw [← BitVec.toNat_and, hand, bne_iff_ne]
  exact not_congr (BitVec.toNat_inj.trans hzero)

variable (m : Machine) (w : Word)

theorem setFlag_setFlag (m : Machine) (f g : Bool) : (m.setFlag f).setFlag g = m.setFlag g := by
  simp only [Machine.setFlag, Machine.setReg, Vector.set_set]

/-! ## Rows -/

/-- The machine with bytes drawn, and the flag set if it was or if a lit pixel went out. -/
def drawn (m : Machine) (column top : Nat) (bytes : List Byte) (f : Bool) : Machine :=
  { m with screen := (m.screen.draw column top bytes).1 }.setFlag
    (f || (m.screen.draw column top bytes).2)

theorem run_drawRow (m : Machine) (column top row : Nat) (f : Bool) :
    (drawRow column top row).run (m.setFlag f).plain =
      .ok () (drawn m column (top + row) [m.memory.read (m.index + row)] f).plain := by
  let bits := Row.sprite (m.memory.read (m.index + row)) column
  let k := residue 32 (top + row : Nat)
  let flipped : Machine := { m.setFlag f with screen := m.screen.flip (top + row : Nat) bits }
  have hplace : (top + row) % 32 = k.val := (residue_natCast_val 32 (top + row)).symm
  have hread : (read (m.index + row)).run (m.setFlag f).plain =
      .ok (m.memory.read (m.index + row)).toNat (m.setFlag f).plain := run_read (m.setFlag f) _
  have hold : (entry (m.setFlag f).plain.video k.val).run (m.setFlag f).plain =
      .ok (m.screen.rows.get k).toNat (m.setFlag f).plain := run_entry_words m.screen.rows k _
  have hput : (replaced (m.setFlag f).plain.video k.val (m.screen.rows.get k ^^^ bits).toNat).run
      (m.setFlag f).plain = .ok flipped.plain.video (m.setFlag f).plain :=
    run_replaced_words m.screen.rows k (m.screen.rows.get k ^^^ bits) _
  have hnew : (entry flipped.plain.video k.val).run flipped.plain =
      .ok (m.screen.rows.get k ^^^ bits).toNat flipped.plain := by
    have hrow : flipped.screen.rows.get k = m.screen.rows.get k ^^^ bits :=
      Vector.getElem_set_self k.isLt
    rw [← hrow]
    exact run_entry_words flipped.screen.rows k _
  have hstate : ({ (m.setFlag f).plain with video := flipped.plain.video } : Plain) =
      flipped.plain := rfl
  have hmissing := missing_iff_erases (m.screen.rows.get k) bits
  simp only [drawRow, EStateM.run_bind, EStateM.run_get, hplace]
  rw [show (m.setFlag f).plain.index = m.index from rfl, hread]
  simp only [rotateRight_sprite, hold, ← BitVec.toNat_xor]
  rw [show (Row.sprite (m.memory.read (m.index + row)) column) = bits from rfl, hput]
  simp only [EStateM.run_modify, hstate, hnew]
  have hdraw : m.screen.draw column (top + row) [m.memory.read (m.index + row)] =
      (m.screen.flip (top + row : Nat) bits, m.screen.erases (top + row : Nat) bits) := by
    simp only [Screen.draw, Bool.or_false, bits]
  have herases : m.screen.erases (top + row : Nat) bits = (m.screen.rows.get k &&& bits != 0) := rfl
  rw [drawn, hdraw, herases]
  by_cases h : (m.screen.rows.get k &&& bits != 0) = true
  · -- a lit pixel went out: the flag is set, whatever it was
    have hone : (putRegister 15 1).run flipped.plain = .ok () (flipped.setFlag true).plain :=
      run_putFlag flipped rfl
    rw [if_pos (hmissing.2 h), h, Bool.or_true, hone]
    have hset := setFlag_setFlag { m with screen := m.screen.flip (top + row : Nat) bits } f true
    exact congrArg (fun m' : Machine => EStateM.Result.ok () m'.plain) hset
  · rw [if_neg (mt hmissing.1 h), Bool.eq_false_iff.2 h, Bool.or_false]
    rfl

/-- The sprite bytes from number `row` on. -/
def bytesFrom (m : Machine) (row count : Nat) : List Byte :=
  (List.range count).map fun i => m.memory.read (m.index + (row + i : Nat))

theorem bytesFrom_succ (m : Machine) (row count : Nat) :
    bytesFrom m row (count + 1) =
      m.memory.read (m.index + row) :: bytesFrom m (row + 1) count := by
  simp only [bytesFrom, List.range_succ_eq_map, List.map_cons, List.map_map, Nat.add_zero]
  congr 2
  funext i
  simp only [Function.comp, Nat.succ_eq_add_one]
  rw [show row + (i + 1) = row + 1 + i by omega]

theorem drawn_nil (m : Machine) (column top : Nat) (f : Bool) :
    drawn m column top [] f = m.setFlag f := by
  simp only [drawn, Screen.draw, Bool.or_false]

/-- Drawing a byte and then the rest, with the flag carried along. -/
theorem drawn_cons (m : Machine) (column top : Nat) (b : Byte) (bytes : List Byte) (f : Bool) :
    drawn m column top (b :: bytes) f =
      drawn { m with screen := m.screen.flip top (Row.sprite b column) } column (top + 1) bytes
        (f || m.screen.erases top (Row.sprite b column)) := by
  simp only [drawn, Screen.draw, Bool.or_assoc]

theorem run_drawRows (column top count : Nat) :
    ∀ (m : Machine) (row : Nat) (f : Bool),
      (drawRows column top row count).run (m.setFlag f).plain =
        .ok () (drawn m column (top + row) (bytesFrom m row count) f).plain := by
  induction count with
  | zero =>
      intro m row f
      rw [bytesFrom, List.range_zero, List.map_nil, drawn_nil]
      rfl
  | succ count ih =>
      intro m row f
      simp only [drawRows, EStateM.run_bind, run_drawRow]
      rw [bytesFrom_succ, drawn_cons, drawn_cons, drawn_nil]
      exact ih _ (row + 1) _

theorem run_draw : (draw w.toNat).run m.plain = .ok () (m.apply (.draw w.x w.y w.n)).plain := by
  have hclear : (putRegister 15 0).run m.plain = .ok () (m.setFlag false).plain :=
    run_putFlag m rfl
  have hbytes : bytesFrom m 0 w.n.val = m.memory.range m.index w.n.val := by
    simp only [bytesFrom, Memory.range, Nat.zero_add, Int.toNat_natCast]
  simp only [draw, EStateM.run_bind, x_word, y_word, n_word, run_register, hclear, run_drawRows,
    hbytes, Nat.add_zero, drawn, Bool.false_or]
  rfl

end ChipEight.Plain
