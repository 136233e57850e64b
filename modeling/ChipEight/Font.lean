/-
# `ChipEight.Font` — the sixteen digit glyphs

Each hexadecimal digit has a glyph of five sprite bytes, four pixels wide.  The
glyphs are stored one after the other from address 80 on.
-/
import ChipEight.Residue
import ChipEight.Word

namespace ChipEight.Font

/-- Where the font starts in memory. -/
def base : Nat := 0x50

/-- How many bytes a glyph has. -/
def glyphSize : Nat := 5

/-- The glyphs of the digits 0 to F. -/
def glyphs : List (List Byte) :=
  [ [0xF0, 0x90, 0x90, 0x90, 0xF0],
    [0x20, 0x60, 0x20, 0x20, 0x70],
    [0xF0, 0x10, 0xF0, 0x80, 0xF0],
    [0xF0, 0x10, 0xF0, 0x10, 0xF0],
    [0x90, 0x90, 0xF0, 0x10, 0x10],
    [0xF0, 0x80, 0xF0, 0x10, 0xF0],
    [0xF0, 0x80, 0xF0, 0x90, 0xF0],
    [0xF0, 0x10, 0x20, 0x40, 0x40],
    [0xF0, 0x90, 0xF0, 0x90, 0xF0],
    [0xF0, 0x90, 0xF0, 0x10, 0xF0],
    [0xF0, 0x90, 0xF0, 0x90, 0x90],
    [0xE0, 0x90, 0xE0, 0x90, 0xE0],
    [0xF0, 0x80, 0x80, 0x80, 0xF0],
    [0xE0, 0x90, 0x90, 0x90, 0xE0],
    [0xF0, 0x80, 0xF0, 0x80, 0xF0],
    [0xF0, 0x80, 0xF0, 0x80, 0x80] ]

/-- The font as it lies in memory. -/
def bytes : List Byte := glyphs.flatten

/-- Where the glyph of a digit lies; numbers past the last digit run on through the memory. -/
def address (digit : Int) : Address := residue 4096 (base + glyphSize * digit)

/-- The font fills the 80 bytes from its base to address 160. -/
theorem length_bytes : bytes.length = 80 := by decide

end ChipEight.Font
