/-!
# The instruction set

One constructor per instruction, with its operands as numbers. Decoding only
ever produces register numbers below sixteen, heights below sixteen and
addresses below 4096; the type itself puts no bound on them, so that the written
form of an instruction can be studied for arbitrary operands.
-/

namespace Chip8

/-- The operations between two registers, `8XY?`. The first register is the target of the result,
and the last five operations also report in the flag. -/
inductive ArithmeticOperation where
  /-- Copies the second register. -/
  | assign
  | or
  | and
  | xor
  /-- Adds; the flag is the carry. -/
  | add
  /-- Subtracts the second register; the flag says that it was strictly smaller. -/
  | subtract
  /-- Halves the first register; the flag is the bit that falls out. -/
  | shiftRight
  /-- Subtracts the first register from the second; the flag says that the first
  was strictly smaller. -/
  | subtractReversed
  /-- Doubles the first register; the flag is the bit that falls out. -/
  | shiftLeft
  deriving DecidableEq, Repr

/-- A decoded instruction. Operands `x` and `y` are register numbers. What an instruction does is
said elsewhere, as the effect of executing it on a machine. -/
inductive Instruction where
  /-- `0NNN`: a routine of the host processor, which is not executed. -/
  | hostRoutine (address : Nat)
  /-- `00E0`: unlights every pixel. -/
  | clearScreen
  /-- `00EE`: goes back behind the latest call. -/
  | returnFromCall
  /-- `1NNN` -/
  | jump (target : Nat)
  /-- `2NNN`: remembers the next instruction and jumps. -/
  | call (target : Nat)
  /-- `3XNN`: skips if the register holds the value. -/
  | skipIfValue (x : Nat) (value : UInt8)
  /-- `4XNN`: skips if the register holds another value. -/
  | skipUnlessValue (x : Nat) (value : UInt8)
  /-- `5XY0`: skips if the registers agree. -/
  | skipIfSame (x y : Nat)
  /-- `6XNN` -/
  | loadValue (x : Nat) (value : UInt8)
  /-- `7XNN`: adds without a carry. -/
  | addValue (x : Nat) (value : UInt8)
  /-- `8XY?` -/
  | arithmetic (operation : ArithmeticOperation) (x y : Nat)
  /-- `9XY0`: skips if the registers differ. -/
  | skipIfDifferent (x y : Nat)
  /-- `ANNN` -/
  | loadIndex (address : Nat)
  /-- `BNNN`: jumps to the base plus register zero. -/
  | jumpWithOffset (base : Nat)
  /-- `CXNN`: the next byte of the entropy, masked. -/
  | random (x : Nat) (mask : UInt8)
  /-- `DXYN`: draws the sprite at the index register. -/
  | draw (x y height : Nat)
  /-- `EX9E`: skips if the key in the register is pressed. -/
  | skipIfPressed (x : Nat)
  /-- `EXA1`: skips if the key in the register is not pressed. -/
  | skipUnlessPressed (x : Nat)
  /-- `FX07` -/
  | readDelay (x : Nat)
  /-- `FX0A`: repeats itself until a key is pressed. -/
  | awaitKey (x : Nat)
  /-- `FX15` -/
  | startDelay (x : Nat)
  /-- `FX18` -/
  | startSound (x : Nat)
  /-- `FX1E`: adds the register to the index register. -/
  | advanceIndex (x : Nat)
  /-- `FX29`: points the index register at the glyph of the register's value. -/
  | pointAtGlyph (x : Nat)
  /-- `FX33`: stores the three decimal digits of the register. -/
  | storeDigits (x : Nat)
  /-- `FX55`: stores registers zero to `x`. -/
  | storeRegisters (x : Nat)
  /-- `FX65`: loads registers zero to `x`. -/
  | loadRegisters (x : Nat)
  deriving DecidableEq, Repr

end Chip8
