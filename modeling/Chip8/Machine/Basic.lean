import Chip8.CallStack
import Chip8.Countdown
import Chip8.Entropy
import Chip8.Glyphs
import Chip8.Instruction.Decode
import Chip8.Keypad.Basic
import Chip8.Registers
import Chip8.Screen

/-!
# The machine

The whole state of a machine between two steps, its state after power-on, and the
requests of a host that do not execute anything.

A reset returns every component but two to its power-on value: the configuration
stays, and the entropy goes on from where it was. Loading a program writes its
bytes and nothing else; it neither resets the machine nor ends a wait or a halt.
-/

namespace Chip8

/-- Who counts the timers down. -/
inductive Cadence where
  /-- The host, at its own pace. -/
  | host
  /-- The machine, once behind every successful step. -/
  | instruction
  deriving DecidableEq, Repr

/-- What can be chosen about a machine. It is chosen when the machine is switched on and never
changes. -/
structure Config where
  cadence : Cadence := .host
  unknown : UnknownWords := .skip
  deriving DecidableEq, Repr

/-- What the next step will do. -/
inductive Status where
  /-- Execute the instruction at the program counter. -/
  | running
  /-- Execute it again: it waits for a key, to be stored in the register. -/
  | awaitingKey (register : Nat)
  /-- Fail in the same way, until a reset. -/
  | halted (fault : Fault)
  deriving DecidableEq, Repr

/-- A machine between two steps. Everything that its next step depends on is here, the bytes it
will draw included. -/
structure Machine where
  config : Config
  /-- The word fetched last. -/
  opcode : Opcode
  memory : Memory
  registers : Registers
  /-- The index register. -/
  index : UInt16
  /-- The program counter: the address of the next instruction. -/
  counter : UInt16
  stack : CallStack
  delay : Countdown
  sound : Countdown
  screen : Screen
  /-- The machine's own copy of the keys. -/
  keypad : Keypad
  status : Status
  entropy : Entropy

namespace Machine

/-- A machine as it is switched on: the glyphs are in memory, the counter is at the program start,
and everything else is zero, empty, blank or released. -/
def powerOn (config : Config) (entropy : Entropy) : Machine where
  config := config
  opcode := 0
  memory := Glyphs.memory
  registers := .zero
  index := 0
  counter := Memory.programStart.toUInt16
  stack := .empty
  delay := .zero
  sound := .zero
  screen := .blank
  keypad := .released
  status := .running
  entropy := entropy

/-- Switches the machine off and on again. Its configuration and its entropy survive; a program
that was loaded does not. -/
def reset (machine : Machine) : Machine :=
  { machine with
    opcode := 0
    memory := Glyphs.memory
    registers := .zero
    index := 0
    counter := Memory.programStart.toUInt16
    stack := .empty
    delay := .zero
    sound := .zero
    screen := .blank
    keypad := .released
    status := .running }

/-- Places a program behind the program start. One that does not fit is refused. Bytes behind the
program are left as they are. -/
def load (machine : Machine) (program : List UInt8) : Except LoadFault Machine :=
  if program.length ≤ Memory.programCapacity then
    .ok { machine with memory := machine.memory.writeBlock Memory.programStart program }
  else .error (.tooLarge program.length Memory.programCapacity)

/-- Counts both timers down by one, each unless it has run out. -/
def tick (machine : Machine) : Machine :=
  { machine with delay := machine.delay.tick, sound := machine.sound.tick }

/-- Sets one key. What is no key is refused, and then the machine is left alone. -/
def setKey (machine : Machine) (key : Nat) (pressed : Bool) : Except KeyFault Machine :=
  match machine.keypad.set key pressed with
  | .ok keypad => .ok { machine with keypad }
  | .error fault => .error fault

/-- Sets every key. The machine keeps a copy, so later changes of the host's keys do not reach it.
-/
def setKeys (machine : Machine) (keypad : Keypad) : Machine := { machine with keypad }

/-- Replaces the entropy. How many bytes of the old one were taken is forgotten. -/
def setEntropy (machine : Machine) (entropy : Entropy) : Machine := { machine with entropy }

/-- The host is to emit a tone, for as long as the sound timer runs. -/
def isSounding (machine : Machine) : Bool := machine.sound.isActive

/-- The meaning of the word fetched last; `none` is a word to pass over. -/
def decoded (machine : Machine) : Except OpcodeFault (Option Instruction) :=
  Instruction.decodeUnder machine.config.unknown machine.opcode

/-- A reset is a power-on with the same configuration and the remaining entropy. Whatever holds of
a machine that is switched on therefore holds of one that is reset. -/
theorem reset_eq_powerOn (machine : Machine) :
    machine.reset = powerOn machine.config machine.entropy := rfl

end Machine

end Chip8
