/-
# `ChipEight.Screen` — the 64 by 32 monochrome screen

A row is one 64-bit word whose most significant bit is column 0.  Coordinates
wrap in both directions, so every pair of integers names a pixel.  A sprite is a
column of bytes; drawing turns pixels over (exclusive or) and reports whether a
lit one went out.

**Proved here.**

    a screen is what its rows are                     (`eq_of_row`, `toList_rows`)
    what a pixel shows after one row is turned over   (`row_flip`)
    one draw is one flip after another                (`draw_cons`)
    which keeps the rows outside the sprite           (`row_draw_of_outside`)
    a line in two characters, column by column        (`toList_line_singleton`)
-/
import ChipEight.Residue
import ChipEight.Word

namespace ChipEight

/-- One row of pixels; column 0 is the most significant bit. -/
abbrev Row := BitVec 64

/-- The row turned right by any integer number of columns, round the edge. -/
def Row.rotate (row : Row) (amount : Int) : Row := row.rotateRight (residue 64 amount)

/-- The row in which the eight bits of `b` start at column `column`, wrapping past the edge. -/
def Row.sprite (b : Byte) (column : Nat) : Row := Row.rotate (b.setWidth 64) (column + 8)

/-- The contents of the screen. -/
structure Screen where
  rows : Vector Row 32

namespace Screen

/-- The number of columns. -/
def width : Nat := 64

/-- The number of rows. -/
def height : Nat := 32

/-- The dark screen. -/
def blank : Screen := ⟨Vector.replicate 32 0⟩

/-- The row with the given number, wrapping. -/
def row (s : Screen) (y : Int) : Row := s.rows.get (residue 32 y)

/-- Whether the pixel at column `x` of row `y` is lit; both wrap. -/
def pixel (s : Screen) (x y : Int) : Bool := (s.row y).getMsbD (residue 64 x)

/-- Replaces a row. -/
def setRow (s : Screen) (y : Int) (bits : Row) : Screen :=
  ⟨s.rows.set (residue 32 y) bits (residue 32 y).isLt⟩

/-- A screen is what its rows are. -/
theorem eq_of_row {s s' : Screen} (h : ∀ y : Int, s.row y = s'.row y) : s = s' := by
  obtain ⟨rows⟩ := s
  obtain ⟨rows'⟩ := s'
  congr 1
  refine Vector.ext ?_
  intro k hk
  have hrow : residue 32 (k : Int) = ⟨k, hk⟩ := residue_natCast_of_fin ⟨k, hk⟩
  have hread := h k
  rwa [Screen.row, Screen.row, hrow] at hread

/-- The rows from top to bottom. -/
theorem toList_rows (s : Screen) : s.rows.toList = (List.range 32).map fun y : Nat => s.row y := by
  refine List.ext_getElem (by simp) fun y hy _ => ?_
  have hresidue : (residue 32 (y : Int)).val = y :=
    (residue_natCast_val 32 y).trans (Nat.mod_eq_of_lt (by simpa using hy))
  simp only [List.getElem_map, List.getElem_range, Vector.getElem_toList, row, get_eq_getElem,
    hresidue]

/-- Within the width a column is its own class. -/
theorem pixel_of_lt (s : Screen) {x : Nat} (hx : x < 64) (y : Int) :
    s.pixel x y = (s.row y).getMsbD x := by
  rw [pixel, residue_natCast_val, Nat.mod_eq_of_lt hx]

/-! ## Drawing -/

/-- Turns over the pixels of one row wherever `bits` has a one. -/
def flip (s : Screen) (y : Int) (bits : Row) : Screen := s.setRow y (s.row y ^^^ bits)

/-- Whether turning over `bits` in a row puts out a lit pixel. -/
def erases (s : Screen) (y : Int) (bits : Row) : Bool := s.row y &&& bits != 0

/-- Draws sprite bytes downwards from row `top` at column `column`, and reports whether a lit
pixel went out on the way. -/
def draw (s : Screen) (column top : Nat) : List Byte → Screen × Bool
  | [] => (s, false)
  | b :: bs =>
      let bits := Row.sprite b column
      let rest := (s.flip top bits).draw column (top + 1) bs
      (rest.1, s.erases top bits || rest.2)

/-- The row numbered `query` after one row is turned over. -/
theorem row_flip (s : Screen) (y : Int) (bits : Row) (query : Int) :
    (s.flip y bits).row query =
      if y % 32 = query % 32 then s.row query ^^^ bits else s.row query := by
  have h := residue_eq_residue_iff 32 y query
  simp only [Fin.ext_iff] at h
  simp only [flip, setRow, row, get_eq_getElem, Vector.getElem_set]
  by_cases hv : y % 32 = query % 32
  · rw [if_pos (h.2 hv), if_pos hv]
    simp only [h.2 hv]
  · rw [if_neg (mt h.1 hv), if_neg hv]

/-- Drawing a byte and then the rest. -/
theorem draw_cons (s : Screen) (column top : Nat) (b : Byte) (bs : List Byte) :
    (s.draw column top (b :: bs)).1 =
      ((s.flip top (Row.sprite b column)).draw column (top + 1) bs).1 := rfl

/-- By induction on the bytes, each of which turns over one row. -/
theorem row_draw_of_outside (bytes : List Byte) :
    ∀ (s : Screen) (column top : Nat) {y : Int},
    (∀ r : Nat, r < bytes.length → ((top : Int) + r) % 32 ≠ y % 32) →
    (s.draw column top bytes).1.row y = s.row y := by
  induction bytes with
  | nil => exact fun _ _ _ _ _ => rfl
  | cons b bytes ih =>
      intro s column top y h
      have hfirst : (top : Int) % 32 ≠ y % 32 := by
        have hzero := h 0 (Nat.succ_pos _)
        rwa [Int.natCast_zero, Int.add_zero] at hzero
      rw [draw_cons, ih, row_flip, if_neg hfirst]
      intro r hr
      have hsucc := h (r + 1) (Nat.succ_lt_succ hr)
      rwa [show ((top + 1 : Nat) : Int) + (r : Int) = (top : Int) + ((r + 1 : Nat) : Int) by omega]

/-! ## Reading the picture -/

/-- The lit pixels as pairs of column and row, row by row. -/
def lit (s : Screen) : List (Nat × Nat) :=
  (List.range height).flatMap fun y : Nat =>
    ((List.range width).filter fun x : Nat => s.pixel x y).map fun x => (x, y)

/-- One line of the picture, with `on` for a lit pixel and `off` for a dark one. -/
def line (s : Screen) (on off : String) (y : Nat) : String :=
  String.join ((List.range width).map fun x : Nat => if s.pixel x y then on else off)

/-- A line in two characters, column by column. -/
theorem toList_line_singleton (s : Screen) (on off : Char) (y : Nat) :
    (s.line (String.singleton on) (String.singleton off) y).toList =
      (List.range 64).map fun x : Nat => if s.pixel x y then on else off := by
  rw [line, String.toList_join, List.flatMap_map, List.map_eq_flatMap]
  refine congrArg (List.flatMap · (List.range 64)) (funext fun x => ?_)
  split <;> exact String.toList_singleton _

/-- The picture as text: the lines from top to bottom with line breaks between them. -/
def render (s : Screen) (on off : String) : String :=
  "\n".intercalate ((List.range height).map (s.line on off))

end Screen

end ChipEight
