import Chip8.Fault

/-!
# Instruction words

An instruction is two bytes, most significant byte first. A word is cut into a
group (its highest nibble) and operand fields; every field is a quotient or a
remainder of the word's number, so its range is a fact about division. Fields
overlap: the twelve-bit address holds the byte, and the byte holds both low
nibbles.

Reading a word needs both of its bytes inside the data. The last index that does
is two below the length, and everything above is refused by name.
-/

namespace Chip8

namespace Opcode

/-- Bytes in one word. -/
abbrev size : Nat := 2

/-- The highest nibble, which selects the group of instructions. Most groups are one instruction;
the others look at a selector as well. -/
def group (opcode : Opcode) : Nat := opcode.toNat / 4096

/-- The low twelve bits: an address. -/
def address (opcode : Opcode) : Nat := opcode.toNat % 4096

/-- The low byte: an immediate value or a selector inside a group. -/
def byte (opcode : Opcode) : UInt8 := (opcode.toNat % 256).toUInt8

/-- The lowest nibble: a sprite height or a selector inside a group. -/
def nibble (opcode : Opcode) : Nat := opcode.toNat % 16

/-- The second nibble: the first register operand. -/
def first (opcode : Opcode) : Nat := opcode.toNat / 256 % 16

/-- The third nibble: the second register operand. -/
def second (opcode : Opcode) : Nat := opcode.toNat / 16 % 16

/-- The word of two bytes in big-endian order, formed as a number. -/
def ofBytes (high low : UInt8) : Opcode := (256 * high.toNat + low.toNat).toUInt16

/-- Reads the word at an index. Data that ends before the second byte of the word is refused with
the index and the length of the data. A word is never read around the end of the data, unlike the
bytes of a transfer. -/
def fetch (bytes : Array UInt8) (index : Nat) : Except OpcodeFault Opcode :=
  if inside : index + 1 < bytes.size then .ok (ofBytes bytes[index] bytes[index + 1])
  else .error (.outOfBounds index bytes.size)

/-- A word's number is that of its bytes, so no bit is lost. The number of two bytes is below
65536. -/
theorem toNat_ofBytes (high low : UInt8) :
    (ofBytes high low).toNat = 256 * high.toNat + low.toNat := by
  have highBound := high.toNat_lt
  have lowBound := low.toNat_lt
  simp only [ofBytes, Nat.toUInt16, UInt16.toNat_ofNat']
  omega

/-- A word has no other bytes than those that it is made of, since the low byte is the remainder
and the high byte the quotient. -/
theorem ofBytes_inj (high low otherHigh otherLow : UInt8) :
    ofBytes high low = ofBytes otherHigh otherLow ↔ high = otherHigh ∧ low = otherLow := by
  have bound := low.toNat_lt
  have otherBound := otherLow.toNat_lt
  rw [← UInt16.toNat_inj, toNat_ofBytes, toNat_ofBytes, ← UInt8.toNat_inj, ← UInt8.toNat_inj]
  omega

/-- The groups are the sixteen nibbles, because a word is below 65536. -/
theorem group_lt (opcode : Opcode) : opcode.group < 16 := by
  have bound := opcode.toNat_lt
  unfold group
  omega

/-- An address operand lies in the twelve-bit space: it is the address of a byte of memory. -/
theorem address_lt (opcode : Opcode) : opcode.address < 4096 := Nat.mod_lt _ (by decide)

/-- A height or selector is one nibble. -/
theorem nibble_lt (opcode : Opcode) : opcode.nibble < 16 := Nat.mod_lt _ (by decide)

/-- The first register operand names one of sixteen registers. -/
theorem first_lt (opcode : Opcode) : opcode.first < 16 := Nat.mod_lt _ (by decide)

/-- The second register operand names one of sixteen registers. -/
theorem second_lt (opcode : Opcode) : opcode.second < 16 := Nat.mod_lt _ (by decide)

/-- The number of the byte field: a remainder that is small enough to be a byte. -/
theorem toNat_byte (opcode : Opcode) : opcode.byte.toNat = opcode.toNat % 256 := by
  simp only [byte, Nat.toUInt8, UInt8.toNat_ofNat']
  omega

/-- Fetching succeeds exactly when both bytes of the word are there, and gives their word. -/
theorem fetch_inside (bytes : Array UInt8) (index : Nat) (inside : index + 1 < bytes.size) :
    fetch bytes index = .ok (ofBytes bytes[index] bytes[index + 1]) := by
  simp [fetch, inside]

/-- Outside, the refusal names the index and the length. The index may be that of the last byte,
or lie behind the data altogether. -/
theorem fetch_outside (bytes : Array UInt8) (index : Nat) (outside : bytes.size ≤ index + 1) :
    fetch bytes index = .error (.outOfBounds index bytes.size) := by
  simp [fetch, Nat.not_lt.mpr outside]

example : fetch #[0x00, 0xEE, 0x1E, 0xDA] 2 = .ok 0x1EDA := by rfl

end Opcode

end Chip8
