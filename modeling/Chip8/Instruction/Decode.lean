import Chip8.Instruction.Basic
import Chip8.Instruction.Opcode

/-!
# Decoding

The strict instruction set gives every word at most one instruction. The relaxed
one adds the words `5XYN` and `9XYN` with a low nibble other than zero, which
decode as if it were zero; on every other word both agree.

A machine chooses what an unknown word means. Under `skip` the relaxed set is
used and an unknown word is no instruction; under `halt` the strict set is used
and an unknown word is a fault. Decoding itself never looks at anything but the
word.
-/

namespace Chip8

/-- What a machine does about a word outside of the instruction set. The choice also decides which
set that is. -/
inductive UnknownWords where
  /-- Pass over it. -/
  | skip
  /-- Fail. -/
  | halt
  deriving DecidableEq, Repr

/-- The arithmetic operation that the low nibble selects. Seven nibbles select none. -/
def ArithmeticOperation.ofNibble? : Nat → Option ArithmeticOperation
  | 0x0 => some .assign
  | 0x1 => some .or
  | 0x2 => some .and
  | 0x3 => some .xor
  | 0x4 => some .add
  | 0x5 => some .subtract
  | 0x6 => some .shiftRight
  | 0x7 => some .subtractReversed
  | 0xE => some .shiftLeft
  | _ => none

namespace Instruction

/-- Group zero: two words with a meaning, and host routines otherwise. No word of this group is
unknown. -/
def ofScreenGroup (opcode : Opcode) : Instruction :=
  match opcode.address with
  | 0x0E0 => .clearScreen
  | 0x0EE => .returnFromCall
  | address => .hostRoutine address

/-- Group fourteen: the keypad conditions, selected by the byte. -/
def ofKeypadGroup? (opcode : Opcode) : Option Instruction :=
  match opcode.byte.toNat with
  | 0x9E => some (.skipIfPressed opcode.first)
  | 0xA1 => some (.skipUnlessPressed opcode.first)
  | _ => none

/-- Group fifteen: timers, index register and transfers, selected by the byte. All of them have
one register as their operand. -/
def ofTransferGroup? (opcode : Opcode) : Option Instruction :=
  match opcode.byte.toNat with
  | 0x07 => some (.readDelay opcode.first)
  | 0x0A => some (.awaitKey opcode.first)
  | 0x15 => some (.startDelay opcode.first)
  | 0x18 => some (.startSound opcode.first)
  | 0x1E => some (.advanceIndex opcode.first)
  | 0x29 => some (.pointAtGlyph opcode.first)
  | 0x33 => some (.storeDigits opcode.first)
  | 0x55 => some (.storeRegisters opcode.first)
  | 0x65 => some (.loadRegisters opcode.first)
  | _ => none

/-- The instruction of a word in the strict set. The group decides, and in some groups a selector
besides; no word has more than one instruction. -/
def ofOpcode? (opcode : Opcode) : Option Instruction :=
  match opcode.group with
  | 0x0 => some (ofScreenGroup opcode)
  | 0x1 => some (.jump opcode.address)
  | 0x2 => some (.call opcode.address)
  | 0x3 => some (.skipIfValue opcode.first opcode.byte)
  | 0x4 => some (.skipUnlessValue opcode.first opcode.byte)
  | 0x5 => if opcode.nibble = 0 then some (.skipIfSame opcode.first opcode.second) else none
  | 0x6 => some (.loadValue opcode.first opcode.byte)
  | 0x7 => some (.addValue opcode.first opcode.byte)
  | 0x8 => (ArithmeticOperation.ofNibble? opcode.nibble).map
      (.arithmetic · opcode.first opcode.second)
  | 0x9 => if opcode.nibble = 0 then some (.skipIfDifferent opcode.first opcode.second) else none
  | 0xA => some (.loadIndex opcode.address)
  | 0xB => some (.jumpWithOffset opcode.address)
  | 0xC => some (.random opcode.first opcode.byte)
  | 0xD => some (.draw opcode.first opcode.second opcode.nibble)
  | 0xE => ofKeypadGroup? opcode
  | 0xF => ofTransferGroup? opcode
  | _ => none

/-- The instruction of a word in the relaxed set, where the register skips ignore their low
nibble. Everything else is as in the strict set. -/
def ofOpcodeRelaxed? (opcode : Opcode) : Option Instruction :=
  match opcode.group with
  | 0x5 => some (.skipIfSame opcode.first opcode.second)
  | 0x9 => some (.skipIfDifferent opcode.first opcode.second)
  | _ => ofOpcode? opcode

/-- Decoding that fails on an unknown word, and names it. -/
def decode (opcode : Opcode) : Except OpcodeFault Instruction :=
  match ofOpcode? opcode with
  | some instruction => .ok instruction
  | none => .error (.unsupported opcode)

/-- Decoding as a machine's policy asks for; `none` is a word to pass over. A policy that passes
over words never fails, and one that fails never passes over any. -/
def decodeUnder (policy : UnknownWords) (opcode : Opcode) :
    Except OpcodeFault (Option Instruction) :=
  match policy with
  | .skip => .ok (ofOpcodeRelaxed? opcode)
  | .halt => (decode opcode).map some

/-- The relaxed set extends the strict set. Only the two groups of register skips need a look, and
there the strict set asks for a low nibble of zero and otherwise reads the same. -/
theorem ofOpcodeRelaxed?_of_ofOpcode? (opcode : Opcode) (instruction : Instruction)
    (known : ofOpcode? opcode = some instruction) :
    ofOpcodeRelaxed? opcode = some instruction := by
  unfold ofOpcodeRelaxed?
  split
  · next selected =>
    simp only [ofOpcode?, selected, Option.ite_none_right_eq_some] at known
    exact known.2
  · next selected =>
    simp only [ofOpcode?, selected, Option.ite_none_right_eq_some] at known
    exact known.2
  · exact known

/-- Outside of the register skips the relaxed set adds nothing. -/
theorem ofOpcodeRelaxed?_eq (opcode : Opcode) (notSame : opcode.group ≠ 5)
    (notDifferent : opcode.group ≠ 9) : ofOpcodeRelaxed? opcode = ofOpcode? opcode := by
  unfold ofOpcodeRelaxed?
  split
  · contradiction
  · contradiction
  · rfl

end Instruction

end Chip8
