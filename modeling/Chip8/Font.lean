import Chip8.Memory

/-!
The sprites of the sixteen hexadecimal digits, five bytes each, and their place in memory.
-/
namespace Chip8.Font

/-- The rows of the digits 0 to f. -/
def glyphs : List (List UInt8) :=
  [[0xf0, 0x90, 0x90, 0x90, 0xf0],
   [0x20, 0x60, 0x20, 0x20, 0x70],
   [0xf0, 0x10, 0xf0, 0x80, 0xf0],
   [0xf0, 0x10, 0xf0, 0x10, 0xf0],
   [0x90, 0x90, 0xf0, 0x10, 0x10],
   [0xf0, 0x80, 0xf0, 0x10, 0xf0],
   [0xf0, 0x80, 0xf0, 0x90, 0xf0],
   [0xf0, 0x10, 0x20, 0x40, 0x40],
   [0xf0, 0x90, 0xf0, 0x90, 0xf0],
   [0xf0, 0x90, 0xf0, 0x10, 0xf0],
   [0xf0, 0x90, 0xf0, 0x90, 0x90],
   [0xe0, 0x90, 0xe0, 0x90, 0xe0],
   [0xf0, 0x80, 0x80, 0x80, 0xf0],
   [0xe0, 0x90, 0x90, 0x90, 0xe0],
   [0xf0, 0x80, 0xf0, 0x80, 0xf0],
   [0xf0, 0x80, 0xf0, 0x80, 0x80]]

/-- The rows of one digit. -/
def glyph (digit : Nibble) : List UInt8 := glyphs.getD digit.val []

/-- The first address of the font. -/
def start : Nat := 80

/-- The number of rows of a glyph. -/
def height : Nat := 5

/-- The address of a digit's glyph. -/
def address (digit : Nibble) : Nat := start + digit.val * height

/-- Memory with the font in its place. -/
def install (m : Memory) : Memory := m.overlay start glyphs.flatten

theorem length_glyph (digit : Nibble) : (glyph digit).length = height := by
  revert digit
  decide

end Chip8.Font
