import Chip8.Instruction.Basic
import Chip8.Numeral

/-!
# Assembler text

The written form of an instruction: a mnemonic, then its operands behind a
space, separated by a comma and a space. Several instructions share a mnemonic
and differ only in the form of their operands: a register is a `V` with its
number, a byte and an address are marked hexadecimal, a sprite height is a bare
decimal, and every named resource has a spelling of its own.

Fields have a least width and no greatest one, so arbitrary operands are written
in full.
-/

namespace Chip8

/-- One operand as it is written. It says how a number is to be read, since the same number could
name a register, a byte or an address. -/
inductive Operand where
  /-- A numbered register. -/
  | register (number : Nat)
  /-- An immediate byte, of two digits. -/
  | byte (value : UInt8)
  /-- An address, of at least three digits. -/
  | address (value : Nat)
  /-- A sprite height. -/
  | height (value : Nat)
  /-- The index register. -/
  | index
  /-- The memory at the index register. -/
  | indexed
  /-- The delay timer. -/
  | delay
  /-- The sound timer. -/
  | sound
  /-- The next key. -/
  | key
  /-- The glyph of a digit. -/
  | glyph
  /-- The decimal digits. -/
  | digits
  deriving DecidableEq, Repr

/-- The spelling of an operand. -/
def Operand.text : Operand → String
  | .register number => "V" ++ Numeral.bareHex number
  | .byte value => Numeral.hex 2 value.toNat
  | .address value => Numeral.hex 3 value
  | .height value => Numeral.decimal value
  | .index => "I"
  | .indexed => "[I]"
  | .delay => "DT"
  | .sound => "ST"
  | .key => "K"
  | .glyph => "F"
  | .digits => "B"

/-- The mnemonic of an operation between registers. -/
def ArithmeticOperation.mnemonic : ArithmeticOperation → String
  | .assign => "LD"
  | .or => "OR"
  | .and => "AND"
  | .xor => "XOR"
  | .add => "ADD"
  | .subtract => "SUB"
  | .shiftRight => "SHR"
  | .subtractReversed => "SUBN"
  | .shiftLeft => "SHL"

namespace Instruction

/-- The mnemonic of an instruction. -/
def mnemonic : Instruction → String
  | hostRoutine _ => "SYS"
  | clearScreen => "CLS"
  | returnFromCall => "RET"
  | jump _ => "JP"
  | call _ => "CALL"
  | skipIfValue _ _ => "SE"
  | skipUnlessValue _ _ => "SNE"
  | skipIfSame _ _ => "SE"
  | loadValue _ _ => "LD"
  | addValue _ _ => "ADD"
  | arithmetic operation _ _ => operation.mnemonic
  | skipIfDifferent _ _ => "SNE"
  | loadIndex _ => "LD"
  | jumpWithOffset _ => "JP"
  | random _ _ => "RND"
  | draw _ _ _ => "DRW"
  | skipIfPressed _ => "SKP"
  | skipUnlessPressed _ => "SKNP"
  | readDelay _ => "LD"
  | awaitKey _ => "LD"
  | startDelay _ => "LD"
  | startSound _ => "LD"
  | advanceIndex _ => "ADD"
  | pointAtGlyph _ => "LD"
  | storeDigits _ => "LD"
  | storeRegisters _ => "LD"
  | loadRegisters _ => "LD"

/-- The operands of an instruction in written order, the target first. A resource that the
instruction always uses is written like an operand. -/
def operands : Instruction → List Operand
  | hostRoutine address => [.address address]
  | clearScreen => []
  | returnFromCall => []
  | jump target => [.address target]
  | call target => [.address target]
  | skipIfValue x value => [.register x, .byte value]
  | skipUnlessValue x value => [.register x, .byte value]
  | skipIfSame x y => [.register x, .register y]
  | loadValue x value => [.register x, .byte value]
  | addValue x value => [.register x, .byte value]
  | arithmetic _ x y => [.register x, .register y]
  | skipIfDifferent x y => [.register x, .register y]
  | loadIndex address => [.index, .address address]
  | jumpWithOffset base => [.register 0, .address base]
  | random x mask => [.register x, .byte mask]
  | draw x y height => [.register x, .register y, .height height]
  | skipIfPressed x => [.register x]
  | skipUnlessPressed x => [.register x]
  | readDelay x => [.register x, .delay]
  | awaitKey x => [.register x, .key]
  | startDelay x => [.delay, .register x]
  | startSound x => [.sound, .register x]
  | advanceIndex x => [.index, .register x]
  | pointAtGlyph x => [.glyph, .register x]
  | storeDigits x => [.digits, .register x]
  | storeRegisters x => [.indexed, .register x]
  | loadRegisters x => [.register x, .indexed]

/-- The written form of an instruction. Without operands it is the mnemonic alone, with no space
behind it. -/
def text (instruction : Instruction) : String :=
  match instruction.operands with
  | [] => instruction.mnemonic
  | operands =>
    instruction.mnemonic ++ " " ++ String.intercalate ", " (operands.map Operand.text)

example : (draw 0 1 5).text = "DRW V0, V1, 5" := by decide +kernel

example : clearScreen.text = "CLS" := by decide +kernel

end Instruction

end Chip8
