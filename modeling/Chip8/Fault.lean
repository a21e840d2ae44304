import Chip8.Numeral

/-!
# Faults

Everything that can be refused or go wrong, by cause. An `OpcodeFault` or a
`StackFault` ends execution; a `Fault` says which of the two it was. A
`LoadFault` or a `KeyFault` refuses one request of the host and leaves no trace.

The wording is a function of the cause. Causes carry exactly the numbers that
their wording shows, so equal texts come from equal causes.
-/

namespace Chip8

/-- An instruction word as it stands in memory. Whether it is an instruction at all is left open.
-/
abbrev Opcode := UInt16

/-- Why no instruction could be obtained. -/
inductive OpcodeFault where
  /-- The word is not in the instruction set. -/
  | unsupported (opcode : Opcode)
  /-- The word would end behind the data. -/
  | outOfBounds (address length : Nat)
  deriving DecidableEq, Repr

/-- Why the call stack could not follow an instruction. -/
inductive StackFault where
  /-- A call with every frame in use. -/
  | full
  /-- A return without a call. -/
  | empty
  deriving DecidableEq, Repr

/-- A fatal fault of a running machine. It ends execution until a reset, and the next steps repeat
it. -/
inductive Fault where
  | opcode (cause : OpcodeFault)
  | stack (cause : StackFault)
  deriving DecidableEq, Repr

/-- Why a program was not loaded. -/
inductive LoadFault where
  /-- The program has more bytes than fit behind the program start. -/
  | tooLarge (size limit : Nat)
  deriving DecidableEq, Repr

/-- Why a key was not changed. -/
inductive KeyFault where
  /-- The keypad has no key of this number. -/
  | noSuchKey (key : Nat)
  deriving DecidableEq, Repr

/-- The wording of an opcode fault. Addresses have at least four digits, and the length is
decimal. -/
def OpcodeFault.message : OpcodeFault → String
  | .unsupported opcode =>
    "An unsupported opcode was used " ++ Numeral.hex 4 opcode.toNat ++ "."
  | .outOfBounds address length =>
    "Pointer location invalid there can not be an opcode at " ++ Numeral.hex 4 address ++
      ", if data len is " ++ Numeral.decimal length

/-- The wording of a stack fault. -/
def StackFault.message : StackFault → String
  | .full => "Stack is full!"
  | .empty => "Stack is empty!"

/-- The wording of a fatal fault quotes the wording of its cause, and says of which kind the cause
is. -/
def Fault.message : Fault → String
  | .opcode cause => "Invalid opcode state '" ++ cause.message ++ "'."
  | .stack cause => "Invalid stack state '" ++ cause.message ++ "'."

/-- The wording of a refused program. -/
def LoadFault.message : LoadFault → String
  | .tooLarge size limit =>
    "The rom is " ++ Numeral.decimal size ++ " bytes long, but only " ++
      Numeral.decimal limit ++ " bytes fit into memory."

/-- The wording of a refused key. Its number is not padded, so a key has one digit and anything
larger shows in full. -/
def KeyFault.message : KeyFault → String
  | .noSuchKey key => "There is no key with the index " ++ Numeral.hex 1 key ++ "."

example : (Fault.opcode (.unsupported 0x8008)).message =
    "Invalid opcode state 'An unsupported opcode was used 0x8008.'." := by
  decide +kernel

example : (KeyFault.noSuchKey 0x10).message = "There is no key with the index 0x10." := by
  decide +kernel

end Chip8
