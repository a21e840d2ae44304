import Chip8.Memory

/-!
# Built-in glyphs

The sixteen hexadecimal digits as sprites of five rows. A row is a byte whose
high nibble holds the four columns. They stand below the program start, where a
program finds the glyph of a digit at a fixed distance from the first.
-/

namespace Chip8.Glyphs

/-- Address of the glyph of zero. -/
abbrev start : Nat := 0x50

/-- Rows, and therefore bytes, of one glyph. -/
abbrev height : Nat := 5

/-- The rows of all glyphs, zero to fifteen, each glyph on a line of its own. -/
def rows : List UInt8 :=
  [0xF0, 0x90, 0x90, 0x90, 0xF0,
   0x20, 0x60, 0x20, 0x20, 0x70,
   0xF0, 0x10, 0xF0, 0x80, 0xF0,
   0xF0, 0x10, 0xF0, 0x10, 0xF0,
   0x90, 0x90, 0xF0, 0x10, 0x10,
   0xF0, 0x80, 0xF0, 0x10, 0xF0,
   0xF0, 0x80, 0xF0, 0x90, 0xF0,
   0xF0, 0x10, 0x20, 0x40, 0x40,
   0xF0, 0x90, 0xF0, 0x90, 0xF0,
   0xF0, 0x90, 0xF0, 0x10, 0xF0,
   0xF0, 0x90, 0xF0, 0x90, 0x90,
   0xE0, 0x90, 0xE0, 0x90, 0xE0,
   0xF0, 0x80, 0x80, 0x80, 0xF0,
   0xE0, 0x90, 0x90, 0x90, 0xE0,
   0xF0, 0x80, 0xF0, 0x80, 0xF0,
   0xF0, 0x80, 0xF0, 0x80, 0x80]

/-- Where the glyph of a value is looked for. Values above fifteen continue in the same steps
behind the last glyph, where there is no glyph to be found. -/
def address (value : UInt8) : Nat := start + height * value.toNat

/-- Memory that holds the glyphs and zeros: what every machine starts from, before a program is
loaded. -/
def memory : Memory := Memory.zero.writeBlock start rows

/-- No value addresses past sixteen bits, so putting the address into the index register loses
nothing of it. -/
theorem address_lt (value : UInt8) : address value < 65536 := by
  have bound := value.toNat_lt
  simp only [address, start, height]
  omega

end Chip8.Glyphs
