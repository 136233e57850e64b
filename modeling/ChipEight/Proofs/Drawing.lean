/-
# `ChipEight.Proofs.Drawing` — what a draw does to each pixel

A draw knows no pixels.  It rotates each sprite byte inside a row of 64 bits, turns the
whole row over with it, and looks at whole rows to see whether a lit pixel went out.
Seen from a pixel all this comes to one bit of the sprite, found by how far the pixel
lies to the right of the left edge and below the top edge, counted round the edges of
the screen.

A sprite of up to 32 bytes meets no row twice.  So the row that a byte turns over is
still the row from before the draw, and the reports of the single rows add up to one
statement about the screen from before.

**Proved here**, where the stamp of a sprite in a row is the byte that falls on it,
rotated into place:

    a bit of a byte that was rotated into place          (`getMsbD_sprite`)
    a draw turns each row over with the sprite's stamp   (`row_draw`)
    and reports whether stamp and row have a one in
    common anywhere                                      (`erased_draw_iff`)
    an instruction that draws turns over the pixels with
    a one in the sprite, flags a lit one among them, and
    changes nothing else                                 (`execute_draw`)
-/
import ChipEight.Proofs.Words
import ChipEight.Machine.Execute

namespace ChipEight

/-! ## Bits of a row -/

namespace Row

/-- The distance from the left edge, counted to the right round the edge of the screen, numbers the
bits of the byte; those behind the eighth are none. -/
theorem getMsbD_sprite (b : Byte) (column : Nat) (x : Int) :
    (sprite b column).getMsbD (residue 64 x).val = b.getMsbD ((x - column) % 64).toNat := by
  have hx := residue_val 64 x
  have hk := residue_val 64 ((column : Int) + 8)
  have hxlt := (residue 64 x).isLt
  have hklt := (residue 64 ((column : Int) + 8)).isLt
  rw [sprite, rotate, BitVec.getMsbD_rotateRight, Nat.mod_eq_of_lt hklt]
  generalize (residue 64 x).val = i at *
  generalize (residue 64 ((column : Int) + 8)).val = k at *
  simp only [BitVec.getMsbD_setWidth, hxlt, decide_true, Bool.true_and]
  -- the byte has the last eight bits of the row before it is rotated
  by_cases hbyte : ((x - column) % 64).toNat < 8
  · split
    · rw [decide_eq_true (by omega), Bool.true_and]
      congr 1
      omega
    · rw [decide_eq_true (by omega), Bool.true_and]
      congr 1
      omega
  · rw [b.getMsbD_of_ge _ (Nat.le_of_not_lt hbyte)]
    split
    · rw [decide_eq_false (by omega), Bool.false_and]
    · rw [decide_eq_false (by omega), Bool.false_and]

theorem ne_zero_iff (row : Row) : row ≠ 0 ↔ ∃ x : Int, row.getMsbD (residue 64 x).val = true := by
  constructor
  · intro hrow
    refine Classical.byContradiction fun hnone => hrow (BitVec.eq_of_getMsbD_eq fun i hi => ?_)
    have hi' : (residue 64 (i : Int)).val = i :=
      (residue_natCast_val 64 i).trans (Nat.mod_eq_of_lt hi)
    refine (Bool.eq_false_iff.2 fun hone => hnone ⟨i, ?_⟩).trans BitVec.getMsbD_zero.symm
    rw [hi']
    exact hone
  · rintro ⟨x, hx⟩ rfl
    exact Bool.false_ne_true (BitVec.getMsbD_zero.symm.trans hx)

end Row

namespace Screen

/-! ## Rows -/

/-- The bits of a sprite in a row of the screen. -/
def stamp (column top : Nat) (bytes : List Byte) (y : Int) : Row :=
  match bytes[(residue 32 (y - top)).val]? with
  | some b => Row.sprite b column
  | none => 0

section

variable {top : Nat} {y : Int} (column : Nat) (b : Byte) (bytes : List Byte)

theorem stamp_cons_of_top (h : (top : Int) % 32 = y % 32) :
    stamp column top (b :: bytes) y = Row.sprite b column := by
  have hzero : (residue 32 (y - top)).val = 0 := by
    have hval := residue_val 32 (y - top)
    omega
  rw [stamp, hzero]
  rfl

theorem stamp_cons_of_other (h : (top : Int) % 32 ≠ y % 32) :
    stamp column top (b :: bytes) y = stamp column (top + 1) bytes y := by
  have hsucc : (residue 32 (y - top)).val = (residue 32 (y - (top + 1 : Nat))).val + 1 := by
    have hval := residue_val 32 (y - top)
    have hval' := residue_val 32 (y - (top + 1 : Nat))
    omega
  rw [stamp, stamp, hsucc, List.getElem?_cons_succ]

/-- The bytes behind the first one come round to its row only after 31 others. -/
theorem stamp_tail_of_top (h : (top : Int) % 32 = y % 32) (hshort : bytes.length < 32) :
    stamp column (top + 1) bytes y = 0 := by
  have hlast : (residue 32 (y - (top + 1 : Nat))).val = 31 := by
    have hval := residue_val 32 (y - (top + 1 : Nat))
    omega
  rw [stamp, hlast, List.getElem?_eq_none (by omega)]

end

/-- By induction on the bytes, each of which turns over a row that no later one meets. -/
theorem row_draw (column : Nat) (bytes : List Byte) : ∀ (s : Screen) (top : Nat) (y : Int),
    bytes.length ≤ 32 →
    (s.draw column top bytes).1.row y = s.row y ^^^ stamp column top bytes y := by
  induction bytes with
  | nil => exact fun s top y _ => BitVec.xor_zero.symm
  | cons b bytes ih =>
      intro s top y hshort
      rw [List.length_cons] at hshort
      rw [draw_cons, ih _ _ _ (by omega), row_flip]
      by_cases h : (top : Int) % 32 = y % 32
      · rw [if_pos h, stamp_tail_of_top column bytes h (by omega), stamp_cons_of_top column b bytes h]
        exact BitVec.xor_zero
      · rw [if_neg h, stamp_cons_of_other column b bytes h]

/-- By induction on the bytes: the rows that the later ones look at are those from before. -/
theorem erased_draw_iff (column : Nat) (bytes : List Byte) : ∀ (s : Screen) (top : Nat),
    bytes.length ≤ 32 →
    ((s.draw column top bytes).2 = true ↔
      ∃ y : Int, s.row y &&& stamp column top bytes y ≠ 0) := by
  induction bytes with
  | nil =>
      intro s top _
      refine ⟨nofun, ?_⟩
      rintro ⟨y, hy⟩
      exact absurd BitVec.and_zero hy
  | cons b bytes ih =>
      intro s top hshort
      rw [List.length_cons] at hshort
      have htail := ih (s.flip top (Row.sprite b column)) (top + 1) (by omega)
      rw [draw, Bool.or_eq_true, htail, erases, bne_iff_ne]
      constructor
      · rintro (hfirst | ⟨y, hy⟩)
        · exact ⟨top, by rw [stamp_cons_of_top column b bytes rfl]; exact hfirst⟩
        · by_cases h : (top : Int) % 32 = y % 32
          · rw [stamp_tail_of_top column bytes h (by omega)] at hy
            exact absurd BitVec.and_zero hy
          · rw [row_flip, if_neg h] at hy
            exact ⟨y, by rw [stamp_cons_of_other column b bytes h]; exact hy⟩
      · rintro ⟨y, hy⟩
        by_cases h : (top : Int) % 32 = y % 32
        · have hrow : s.row y = s.row top := by
            rw [row, row, (residue_eq_residue_iff 32 top y).2 h]
          rw [stamp_cons_of_top column b bytes h, hrow] at hy
          exact .inl hy
        · rw [stamp_cons_of_other column b bytes h] at hy
          exact .inr ⟨y, by rw [row_flip, if_neg h]; exact hy⟩

/-! ## Pixels -/

/-- The bit of a sprite on a pixel. -/
def stampBit (column top : Nat) (bytes : List Byte) (x y : Int) : Bool :=
  (stamp column top bytes y).getMsbD (residue 64 x).val

section

variable {bytes : List Byte} (hshort : bytes.length ≤ 32) (s : Screen) (column top : Nat)
include hshort

theorem pixel_draw (x y : Int) :
    (s.draw column top bytes).1.pixel x y = (s.pixel x y ^^ stampBit column top bytes x y) := by
  rw [pixel, row_draw column bytes s top y hshort, BitVec.getMsbD_xor]
  rfl

theorem erased_draw_iff_pixel :
    (s.draw column top bytes).2 = true ↔
      ∃ x y : Int, s.pixel x y = true ∧ stampBit column top bytes x y = true := by
  rw [erased_draw_iff column bytes s top hshort, exists_comm]
  refine exists_congr fun y => ?_
  rw [Row.ne_zero_iff]
  refine exists_congr fun x => ?_
  rw [BitVec.getMsbD_and, Bool.and_eq_true]
  rfl

end

end Screen

/-! ## The instruction -/

namespace Machine

/-- Whether the sprite that a word draws has a one on a pixel.  Its rows are the bytes from the index
on, and the leftmost pixel of a row is the highest bit; both edges are taken from registers. -/
def spriteBit (m : Machine) (w : Word) (x y : Int) : Bool :=
  let dx := (x - ((m.reg w.x).toNat % 64 : Nat)) % 64
  let dy := (y - ((m.reg w.y).toNat % 32 : Nat)) % 32
  dx < 8 && dy < w.n.val && (m.memory.read (m.index + dy)).getLsbD (7 - dx).toNat

theorem stampBit_range (m : Machine) (w : Word) (x y : Int) :
    Screen.stampBit ((m.reg w.x).toNat % 64) ((m.reg w.y).toNat % 32)
      (m.memory.range m.index w.n.val) x y = m.spriteBit w x y := by
  simp only [spriteBit]
  generalize (m.reg w.x).toNat % 64 = column
  generalize (m.reg w.y).toNat % 32 = top
  have hdy := residue_val 32 (y - top)
  rw [Screen.stampBit, Screen.stamp, Memory.range, Int.toNat_natCast, List.getElem?_map]
  by_cases hrow : (y - top) % 32 < w.n.val
  · rw [List.getElem?_range (by omega), decide_eq_true hrow, Bool.and_true]
    show (Row.sprite (m.memory.read (m.index + (residue 32 (y - top)).val)) column).getMsbD
      (residue 64 x).val = _
    rw [Row.getMsbD_sprite, hdy, BitVec.getMsbD_eq_getLsbD]
    by_cases hcolumn : (x - column) % 64 < 8
    · rw [decide_eq_true hcolumn, decide_eq_true (by omega)]
      congr 2
      omega
    · rw [decide_eq_false hcolumn, decide_eq_false (by omega), Bool.false_and, Bool.false_and]
  · rw [List.getElem?_eq_none (by rw [List.length_range]; omega), decide_eq_false hrow,
      Bool.and_false]
    exact BitVec.getMsbD_zero

theorem length_range_le (m : Machine) (n : Fin 16) :
    (m.memory.range m.index n.val).length ≤ 32 := by
  have hlt := n.isLt
  rw [Memory.range, List.length_map, List.length_range, Int.toNat_natCast]
  omega

theorem execute_draw_eq {w : Word} (hw : w.group = 0xD) (m : Machine) :
    m.execute w = .ok (m.drawSprite w.x w.y w.n) :=
  execute_of_fits (i := .draw w.x w.y w.n) hw ⟨rfl, rfl, rfl⟩ m

/-- An instruction of group D ends without a fault.  Each pixel is turned over if the sprite has a
one on it, the flag tells whether there was a lit one among these, and all else is as before.  Index
and registers may be anything, the register for an edge may be the flag register, and both edges may
come from the same register: what counts is what they held before. -/
theorem execute_draw {w : Word} (hw : w.group = 0xD) (m : Machine) :
    ∃ m', m.execute w = .ok m' ∧
      (∀ x y : Int, m'.screen.pixel x y = (m.screen.pixel x y ^^ m.spriteBit w x y)) ∧
      (m'.flag = 1 ∧ (∃ x y : Int, m.screen.pixel x y = true ∧ m.spriteBit w x y = true) ∨
        m'.flag = 0 ∧ ∀ x y : Int, m.screen.pixel x y = true → m.spriteBit w x y = false) ∧
      (∀ r, r ≠ flagRegister → m'.reg r = m.reg r) ∧
      { m' with screen := m.screen, registers := m.registers } = m := by
  let column := (m.reg w.x).toNat % 64
  let top := (m.reg w.y).toNat % 32
  let drawn := m.screen.draw column top (m.memory.range m.index w.n.val)
  have hbit : ∀ x y : Int, Screen.stampBit column top (m.memory.range m.index w.n.val) x y =
      m.spriteBit w x y := m.stampBit_range w
  have herased : drawn.2 = true ↔
      ∃ x y : Int, m.screen.pixel x y = true ∧ m.spriteBit w x y = true := by
    simp only [← hbit]
    exact Screen.erased_draw_iff_pixel (m.length_range_le w.n) m.screen column top
  refine ⟨_, execute_draw_eq hw m, ?_, ?_, ?_, rfl⟩
  · intro x y
    rw [← hbit]
    exact Screen.pixel_draw (m.length_range_le w.n) m.screen column top x y
  · have hflag : (m.drawSprite w.x w.y w.n).flag = if drawn.2 then 1 else 0 := by
      exact (reg_setReg _ _ _ _).trans (if_pos rfl)
    rw [hflag]
    cases hdrawn : drawn.2 with
    | true => exact .inl ⟨rfl, herased.1 hdrawn⟩
    | false =>
        refine .inr ⟨rfl, fun x y hlit => Bool.eq_false_iff.2 fun hone => ?_⟩
        exact Bool.false_ne_true (hdrawn.symm.trans (herased.2 ⟨x, y, hlit, hone⟩))
  · intro r hr
    exact (reg_setReg _ _ _ _).trans (if_neg hr.symm)

/-- Both edges come from the flag register, the sprite begins in the last cell of the memory, and a
pixel is lit behind the right edge. -/
def cornered : Machine :=
  { blank (.seeded 7) with
    registers := (Vector.replicate 16 0).set 15 62
    memory := (Memory.zero.set 4095 0xF0).set 0 0x80
    screen := Screen.blank.setRow 30 0x4000000000000000
    index := 4095 }

theorem execute_draw_cornered :
    (0xDFF2 : Word).group = 0xD ∧
      ∃ m', cornered.execute 0xDFF2 = .ok m' ∧ m'.screen.pixel 1 30 = false ∧
        m'.screen.pixel 62 31 = true ∧ m'.flag = 1 ∧ m'.index = 4095 := by
  have hw : (0xDFF2 : Word).group = 0xD := by decide
  have hlast : cornered.memory.read 4095 = 0xF0 := by
    rw [cornered, Memory.read_set, Memory.read_set]
    rfl
  have hfirst : cornered.memory.read 4096 = 0x80 := by
    rw [cornered, Memory.read_set]
    rfl
  have hlit : cornered.screen.pixel 1 30 = true := by decide
  have hdark : cornered.screen.pixel 62 31 = false := by decide
  have hbit : ∀ x y : Int, cornered.spriteBit 0xDFF2 x y =
      ((x - 62) % 64 < 8 && (y - 30) % 32 < 2 &&
        (cornered.memory.read (4095 + (y - 30) % 32)).getLsbD (7 - (x - 62) % 64).toNat) := by
    intro x y
    have hx : (0xDFF2 : Word).x = 15 ∧ (0xDFF2 : Word).y = 15 ∧ (0xDFF2 : Word).n = 2 := by decide
    have hreg : (cornered.reg 15).toNat = 62 := by decide
    rw [spriteBit, hx.1, hx.2.1, hx.2.2, hreg]
    rfl
  have hout : cornered.spriteBit 0xDFF2 1 30 = true := by
    rw [hbit, show (4095 : Int) + (30 - 30) % 32 = 4095 by decide, hlast]
    decide
  have hon : cornered.spriteBit 0xDFF2 62 31 = true := by
    rw [hbit, show (4095 : Int) + (31 - 30) % 32 = 4096 by decide, hfirst]
    decide
  obtain ⟨m', hexecute, hpixels, hflag, -, hrest⟩ := execute_draw hw cornered
  have hindex : m'.index = cornered.index := by rw [← hrest]
  refine ⟨hw, m', hexecute, ?_, ?_, ?_, hindex⟩
  · rw [hpixels, hlit, hout]
    rfl
  · rw [hpixels, hdark, hon]
    rfl
  · rcases hflag with ⟨hone, -⟩ | ⟨-, hnone⟩
    · exact hone
    · cases hout.symm.trans (hnone 1 30 hlit)

end Machine

end ChipEight
