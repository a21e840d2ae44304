import Chip8.Instruction.Opcode

/-!
# Control flow

What an instruction asks of the program counter. The request is relative to the
address of the instruction itself, so that an instruction which repeats needs to
know nothing about where it stands. Targets are plain numbers: a target behind
the end of memory is formed without wrapping and refused by the next fetch.
-/

namespace Chip8

/-- Where execution goes on, seen from the instruction that is being executed. -/
inductive Flow where
  /-- At the following instruction. -/
  | next
  /-- Behind the following instruction. -/
  | skip
  /-- At the same instruction. -/
  | again
  /-- At an address. -/
  | jump (target : Nat)
  deriving DecidableEq, Repr

namespace Flow

/-- The skip of a condition. A condition that fails is no different from an instruction without
one. -/
def skipIf (condition : Bool) : Flow := if condition then .skip else .next

/-- The address at which execution goes on behind the instruction at an address. It is a number
and may lie outside of memory. -/
def target (flow : Flow) (address : Nat) : Nat :=
  match flow with
  | .next => address + Opcode.size
  | .skip => address + 2 * Opcode.size
  | .again => address
  | .jump target => target

/-- A condition moves the counter past one more instruction exactly when it holds. Written as a
sum, it needs no case split where only the size of the move matters. -/
theorem target_skipIf (condition : Bool) (address : Nat) :
    (skipIf condition).target address =
      address + Opcode.size + if condition then Opcode.size else 0 := by
  cases condition
  · rfl
  · simp only [skipIf, target, if_true, Opcode.size]

/-- Going on moves a counter by one word. Both sides wrap in the same way. -/
theorem toUInt16_target_next (counter : UInt16) :
    (next.target counter.toNat).toUInt16 = counter + 2 := by
  simp [target, Opcode.size]

/-- A condition moves a counter by one word or by two, wrapping in the same way. -/
theorem toUInt16_target_skipIf (condition : Bool) (counter : UInt16) :
    ((skipIf condition).target counter.toNat).toUInt16 =
      counter + if condition then 4 else 2 := by
  cases condition <;> simp [skipIf, target, Opcode.size]

end Flow

end Chip8
