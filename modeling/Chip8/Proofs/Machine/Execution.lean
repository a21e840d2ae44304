import Chip8.Machine.Effect

/-!
# What an instruction can reach

Every instruction reaches only a few components of a machine. The configuration,
the latest word, the program counter and the keys are beyond all of them; each of
the other components is left alone by every instruction outside of a small
class. The screen has no class of its own: an effect that touches it says so.

These facts are collected once, so that a law about one component never has to
look at the instructions that leave it alone.
-/

namespace Chip8

namespace Instruction

/-- The instruction enters or leaves a call. No other one can fail. -/
def movesStack : Instruction → Bool
  | call _ => true
  | returnFromCall => true
  | _ => false

/-- The instruction waits for a key. No other one changes the status. -/
def awaitsKey : Instruction → Bool
  | awaitKey _ => true
  | _ => false

/-- The instruction writes to memory. -/
def storesMemory : Instruction → Bool
  | storeDigits _ => true
  | storeRegisters _ => true
  | _ => false

/-- The instruction takes a random byte. -/
def takesEntropy : Instruction → Bool
  | random _ _ => true
  | _ => false

/-- The instruction starts a timer. Reading one does not. -/
def startsTimer : Instruction → Bool
  | startDelay _ => true
  | startSound _ => true
  | _ => false

end Instruction

/-- The effect of an instruction leaves alone what is not the instruction's concern. The first
four components are nobody's concern; each of the others is kept unless the instruction is of the
class that reaches it. -/
structure Effect.Confined (effect : Effect) (machine : Machine) (instruction : Instruction) :
    Prop where
  config : effect.machine.config = machine.config
  opcode : effect.machine.opcode = machine.opcode
  counter : effect.machine.counter = machine.counter
  keypad : effect.machine.keypad = machine.keypad
  memory : instruction.storesMemory = false → effect.machine.memory = machine.memory
  stack : instruction.movesStack = false → effect.machine.stack = machine.stack
  timers : instruction.startsTimer = false →
    effect.machine.delay = machine.delay ∧ effect.machine.sound = machine.sound
  entropy : instruction.takesEntropy = false → effect.machine.entropy = machine.entropy
  status : instruction.awaitsKey = false →
    effect.machine.status = machine.status ∧ effect.signal ≠ .wait
  screen : effect.signal ≠ .draw → effect.machine.screen = machine.screen

namespace Machine

/-- Executing an instruction has a confined effect. All instructions are looked at here, so that
they need not be looked at again for any component that they leave alone. -/
theorem confined_of_execute (machine : Machine) (instruction : Instruction) (effect : Effect)
    (executed : machine.execute instruction = .ok effect) :
    effect.Confined machine instruction := by
  cases instruction <;> simp only [execute] at executed
  case returnFromCall | call =>
    split at executed
    · contradiction
    · cases executed
      constructor <;> simp [Instruction.movesStack]
  case awaitKey x =>
    cases executed
    unfold awaitKey
    split <;> constructor <;> simp [Instruction.awaitsKey]
  case draw =>
    cases executed
    constructor <;> simp [draw]
  all_goals
    cases executed
    constructor <;>
      simp [Instruction.storesMemory, Instruction.startsTimer, Instruction.takesEntropy]

/-- All that an instruction remarks on is a routine that it ignored or a call that it left. What
else a step reports comes from the step itself and not from the instruction. -/
theorem remarks_of_execute (machine : Machine) (instruction : Instruction) (effect : Effect)
    (executed : machine.execute instruction = .ok effect) :
    ∀ remark ∈ effect.remarks,
      (∃ address, remark = .ignoredRoutine address) ∨ ∃ target, remark = .returned target := by
  cases instruction <;> simp only [execute] at executed
  case returnFromCall =>
    split at executed
    · contradiction
    · cases executed
      simp
  case call =>
    split at executed
    · contradiction
    · cases executed
      simp
  case awaitKey =>
    cases executed
    unfold awaitKey
    split <;> simp
  all_goals
    cases executed
    simp

end Machine

end Chip8
