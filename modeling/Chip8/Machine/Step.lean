import Chip8.Machine.Effect

/-!
# Steps

One step fetches the word at the program counter, decodes it as the configuration
asks, executes it and moves the counter. Whatever goes wrong on the way halts the
machine: its status becomes the fault, and apart from the word that was fetched
nothing else changes. A halted machine answers every step with the same fault and
stays as it is.

Under the instruction cadence both timers count down behind every successful
step, a wait and a skipped word included, and never behind a failed one.
-/

namespace Chip8

/-- What a step leaves behind. -/
structure Outcome where
  machine : Machine
  result : Except Fault Signal
  /-- What was reported, in order. -/
  events : List Event

/-- Finishes a step that succeeded: the counter follows the flow, and the timers count down if
that is the machine's part. A start of a timer in the same step comes before that. -/
def Effect.complete (effect : Effect) (events : List Event) : Outcome :=
  let address := effect.machine.counter.toNat
  let moved := { effect.machine with counter := (effect.flow.target address).toUInt16 }
  { machine :=
      match moved.config.cadence with
      | .host => moved
      | .instruction => moved.tick
    result := .ok effect.signal
    events := events ++ effect.remarks }

namespace Machine

/-- Finishes a step that failed. The machine keeps everything but its status, and the halt is
reported with the address of the word. -/
def fail (machine : Machine) (fault : Fault) (events : List Event) : Outcome where
  machine := { machine with status := .halted fault }
  result := .error fault
  events := events ++ [.halted machine.counter fault]

/-- Decodes and executes the word that was fetched. A word to be passed over is completed like an
instruction that does nothing. -/
def dispatch (machine : Machine) : Outcome :=
  match machine.decoded with
  | .error cause => machine.fail (.opcode cause) []
  | .ok none =>
    Effect.complete { machine } [.skippedOpcode machine.opcode machine.counter]
  | .ok (some instruction) =>
    let executing := [.executing machine.counter machine.opcode instruction]
    match machine.execute instruction with
    | .error cause => machine.fail (.stack cause) executing
    | .ok effect => effect.complete executing

/-- One step of a machine that is not halted, be it running or waiting. The word is fetched first
and remembered, also if it then turns out to be unknown. -/
def attempt (machine : Machine) : Outcome :=
  match Opcode.fetch machine.memory.bytes machine.counter.toNat with
  | .error cause => machine.fail (.opcode cause) []
  | .ok opcode => dispatch { machine with opcode }

/-- One step. Only a halt makes a difference to it; a machine that waits executes its wait again.
-/
def step (machine : Machine) : Outcome :=
  match machine.status with
  | .halted fault => { machine, result := .error fault, events := [] }
  | .running => machine.attempt
  | .awaitingKey _ => machine.attempt

/-- A halted machine repeats its fault and does nothing else, not even report it again. -/
theorem step_of_halted (machine : Machine) (fault : Fault)
    (halted : machine.status = .halted fault) :
    machine.step = { machine, result := .error fault, events := [] } := by
  simp only [step, halted]

/-- A machine that is not halted executes. Running and waiting are the two statuses left, and they
are treated alike. -/
theorem step_of_not_halted (machine : Machine)
    (active : ∀ fault, machine.status ≠ .halted fault) : machine.step = machine.attempt := by
  unfold step
  split
  · next fault halted => exact absurd halted (active fault)
  · rfl
  · rfl

end Machine

end Chip8
