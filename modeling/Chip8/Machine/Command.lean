import Chip8.Machine.Step

/-!
# Commands

Everything that a host can ask of a machine, as data: a history of a machine is a
list of commands. A command is answered by a reply and leaves a machine behind; a
refused command leaves the machine as it was.
-/

namespace Chip8

/-- A request of the host. The keys, programs and bytes of entropy that it brings along are part
of it. -/
inductive Command where
  | step
  | load (program : List UInt8)
  | reset
  | tick
  | setKey (key : Nat) (pressed : Bool)
  | setKeys (keypad : Keypad)
  | setEntropy (entropy : Entropy)

/-- The answer to a command. -/
inductive Reply where
  /-- The outcome of a step. -/
  | stepped (result : Except Fault Signal)
  /-- The program was placed, or why not. -/
  | loaded (result : Except LoadFault Unit)
  /-- The key was set, or why not. -/
  | keySet (result : Except KeyFault Unit)
  /-- A request that cannot fail. -/
  | done

/-- What a command leaves behind: the machine, the answer, and what was reported on the way. -/
structure Response where
  machine : Machine
  reply : Reply
  /-- What was reported, in order. -/
  events : List Event := []

namespace Machine

/-- Obeys a command. A refused one leaves the machine as it was, and is answered by the refusal.
-/
def obey (machine : Machine) : Command → Response
  | .step =>
    let outcome := machine.step
    { machine := outcome.machine, reply := .stepped outcome.result, events := outcome.events }
  | .load program =>
    match machine.load program with
    | .ok loaded =>
      { machine := loaded, reply := .loaded (.ok ()), events := [.loadedProgram program.length] }
    | .error fault =>
      { machine, reply := .loaded (.error fault), events := [.rejectedProgram program.length] }
  | .reset => { machine := machine.reset, reply := .done }
  | .tick => { machine := machine.tick, reply := .done }
  | .setKey key pressed =>
    match machine.setKey key pressed with
    | .ok changed => { machine := changed, reply := .keySet (.ok ()) }
    | .error fault => { machine, reply := .keySet (.error fault) }
  | .setKeys keypad => { machine := machine.setKeys keypad, reply := .done }
  | .setEntropy entropy => { machine := machine.setEntropy entropy, reply := .done }

/-- The machine after a history of commands, whatever they were answered. -/
def after (machine : Machine) (commands : List Command) : Machine :=
  commands.foldl (fun current command => (current.obey command).machine) machine

/-- Without commands nothing happens. -/
@[simp] theorem after_nil (machine : Machine) : machine.after [] = machine := rfl

/-- A history goes on from where its first command leads. -/
@[simp] theorem after_cons (machine : Machine) (command : Command) (rest : List Command) :
    machine.after (command :: rest) = (machine.obey command).machine.after rest := rfl

/-- Histories compose: a later one goes on from where an earlier one leads. -/
theorem after_append (machine : Machine) (earlier later : List Command) :
    machine.after (earlier ++ later) = (machine.after earlier).after later :=
  List.foldl_append

end Machine

end Chip8
