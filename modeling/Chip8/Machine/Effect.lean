import Chip8.Flow
import Chip8.Journal
import Chip8.Machine.Basic
import Chip8.Sprite

/-!
# Effects of instructions

The effect of a decoded instruction on a machine whose program counter stands at
that instruction. The counter is not moved here: an effect says where execution
goes on, and the step applies it. An effect also carries a signal to the host and
what is worth reporting.

Only a call and a return can fail, and a failing instruction has no effect at
all. Only clearing and drawing change the screen, and they are also the only ones
that signal a change of it. Only the wait for a key changes the status.
-/

namespace Chip8

/-- What a successful step tells the host. -/
inductive Signal where
  /-- Nothing to do. -/
  | quiet
  /-- The machine waits for a key. -/
  | wait
  /-- The screen may have changed. -/
  | draw
  deriving DecidableEq, Repr

/-- What an instruction does. The counter is left to the step, which moves it by the flow. -/
structure Effect where
  /-- The machine, its counter still at the instruction. -/
  machine : Machine
  flow : Flow := .next
  signal : Signal := .quiet
  /-- What is worth reporting. -/
  remarks : List Event := []

namespace Machine

/-- The effect of a wait for a key: the lowest pressed key is stored and ends the wait; without
one the same instruction comes again. The status of the machine is not asked for, so the first
attempt and later ones are alike. -/
def awaitKey (machine : Machine) (x : Nat) : Effect :=
  match machine.keypad.lowestPressed with
  | some key =>
    { machine :=
        { machine with
          registers := machine.registers.write x key.toUInt8
          status := .running } }
  | none =>
    { machine := { machine with status := .awaitingKey x }
      flow := .again
      signal := .wait }

/-- Draws the sprite at the index register with its corner at the position in two registers. The
flag says whether a lit pixel was unlit. The position is read before the flag is written, which
may be one of the two registers. -/
def draw (machine : Machine) (x y height : Nat) : Machine :=
  let sprite := machine.memory.readBlock machine.index.toNat height
  let column := (machine.registers.read x).toNat
  let row := (machine.registers.read y).toNat
  let (screen, collided) := machine.screen.flipAll (Sprite.cells sprite column row)
  { machine with
    screen
    registers := machine.registers.write Registers.flag collided.toUInt8 }

/-- The three decimal digits of a byte, hundreds first. -/
def decimalDigits (value : UInt8) : List UInt8 := [value / 100, value / 10 % 10, value % 10]

/-- The effect of an instruction. A call remembers the address behind itself; a jump with an
offset may lead outside of memory, which is left to the next fetch; transfers wrap at the end of
memory and leave the index register alone. -/
def execute (machine : Machine) : Instruction → Except StackFault Effect
  | .hostRoutine address => .ok { machine, remarks := [.ignoredRoutine address] }
  | .clearScreen => .ok { machine := { machine with screen := .blank }, signal := .draw }
  | .returnFromCall =>
    match machine.stack.pop with
    | .error fault => .error fault
    | .ok (target, stack) =>
      .ok
        { machine := { machine with stack }
          flow := .jump target.toNat
          remarks := [.returned target] }
  | .jump target => .ok { machine, flow := .jump target }
  | .call target =>
    match machine.stack.push (Flow.next.target machine.counter.toNat).toUInt16 with
    | .error fault => .error fault
    | .ok stack => .ok { machine := { machine with stack }, flow := .jump target }
  | .skipIfValue x value =>
    .ok { machine, flow := .skipIf (machine.registers.read x == value) }
  | .skipUnlessValue x value =>
    .ok { machine, flow := .skipIf (machine.registers.read x != value) }
  | .skipIfSame x y =>
    .ok { machine, flow := .skipIf (machine.registers.read x == machine.registers.read y) }
  | .loadValue x value =>
    .ok { machine := { machine with registers := machine.registers.write x value } }
  | .addValue x value =>
    .ok
      { machine :=
          { machine with
            registers := machine.registers.write x (machine.registers.read x + value) } }
  | .arithmetic operation x y =>
    .ok { machine := { machine with registers := machine.registers.combine operation x y } }
  | .skipIfDifferent x y =>
    .ok { machine, flow := .skipIf (machine.registers.read x != machine.registers.read y) }
  | .loadIndex address => .ok { machine := { machine with index := address.toUInt16 } }
  | .jumpWithOffset base =>
    .ok { machine, flow := .jump (base + (machine.registers.read 0).toNat) }
  | .random x mask =>
    let (byte, entropy) := machine.entropy.next
    .ok
      { machine :=
          { machine with
            entropy
            registers := machine.registers.write x (byte &&& mask) } }
  | .draw x y height => .ok { machine := machine.draw x y height, signal := .draw }
  | .skipIfPressed x =>
    .ok { machine, flow := .skipIf (machine.keypad.isPressed (machine.registers.read x).toNat) }
  | .skipUnlessPressed x =>
    .ok { machine, flow := .skipIf (!machine.keypad.isPressed (machine.registers.read x).toNat) }
  | .readDelay x =>
    .ok
      { machine :=
          { machine with registers := machine.registers.write x machine.delay.value } }
  | .awaitKey x => .ok (machine.awaitKey x)
  | .startDelay x => .ok { machine := { machine with delay := ⟨machine.registers.read x⟩ } }
  | .startSound x => .ok { machine := { machine with sound := ⟨machine.registers.read x⟩ } }
  | .advanceIndex x =>
    .ok
      { machine :=
          { machine with index := machine.index + (machine.registers.read x).toUInt16 } }
  | .pointAtGlyph x =>
    .ok
      { machine :=
          { machine with index := (Glyphs.address (machine.registers.read x)).toUInt16 } }
  | .storeDigits x =>
    let digits := decimalDigits (machine.registers.read x)
    .ok
      { machine :=
          { machine with memory := machine.memory.writeBlock machine.index.toNat digits } }
  | .storeRegisters x =>
    let values := machine.registers.upTo x
    .ok
      { machine :=
          { machine with memory := machine.memory.writeBlock machine.index.toNat values } }
  | .loadRegisters x =>
    let values := machine.memory.readBlock machine.index.toNat (x + 1)
    .ok { machine := { machine with registers := machine.registers.writeFrom 0 values } }

/-- Executing never moves the program counter. Three instructions look at something before they
decide what to do, and the effects of the others name other components. -/
theorem counter_of_execute (machine : Machine) (instruction : Instruction) (effect : Effect)
    (executed : machine.execute instruction = .ok effect) :
    effect.machine.counter = machine.counter := by
  cases instruction <;> simp only [execute] at executed
  case returnFromCall =>
    split at executed
    · contradiction
    · exact (Except.ok.inj executed) ▸ rfl
  case call target =>
    split at executed
    · contradiction
    · exact (Except.ok.inj executed) ▸ rfl
  case awaitKey x =>
    rw [← Except.ok.inj executed]
    unfold awaitKey
    split <;> rfl
  all_goals exact (Except.ok.inj executed) ▸ rfl

end Machine

end Chip8
