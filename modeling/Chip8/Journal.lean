import Chip8.Fault
import Chip8.Instruction.Assembly

/-!
# Journal

What the library reports about its work, as events and not as text. Every event
has a level and a wording. A reader chooses a threshold and sees the events up
to it, the gravest level being the lowest.
-/

namespace Chip8

/-- How grave an event is. -/
inductive Level where
  | error
  | warn
  | info
  | debug
  | trace
  deriving DecidableEq, Repr

/-- Distance from the gravest level, so that levels can be compared as numbers. -/
def Level.rank : Level → Nat
  | .error => 0
  | .warn => 1
  | .info => 2
  | .debug => 3
  | .trace => 4

/-- A reader with this threshold sees events of a level: those as grave as the threshold and the
graver ones. -/
def Level.admits (threshold level : Level) : Bool := decide (level.rank ≤ threshold.rank)

/-- The mark of a level in a journal line. -/
def Level.name : Level → String
  | .error => "ERROR"
  | .warn => "WARN"
  | .info => "INFO"
  | .debug => "DEBUG"
  | .trace => "TRACE"

/-- One thing worth reporting, with everything that its wording shows. -/
inductive Event where
  /-- An instruction is about to be executed. -/
  | executing (address : UInt16) (opcode : Opcode) (instruction : Instruction)
  /-- A routine of the host processor was passed over. -/
  | ignoredRoutine (address : Nat)
  /-- A call was left for its return address. -/
  | returned (target : UInt16)
  /-- A word without an instruction was passed over. -/
  | skippedOpcode (opcode : Opcode) (address : UInt16)
  /-- A fault ended execution at an address. -/
  | halted (address : UInt16) (fault : Fault)
  /-- A program was too large. -/
  | rejectedProgram (size : Nat)
  /-- A program was placed in memory. -/
  | loadedProgram (size : Nat)
  /-- A fault ended the frames of a playback. -/
  | stoppedPlayback (fault : Fault)
  /-- A worker turned out to have crashed. -/
  | workerCrashed
  deriving DecidableEq, Repr

namespace Event

/-- The level of an event. It depends on the kind of the event only. -/
def level : Event → Level
  | executing _ _ _ => .trace
  | ignoredRoutine _ => .debug
  | returned _ => .debug
  | skippedOpcode _ _ => .warn
  | halted _ _ => .error
  | rejectedProgram _ => .warn
  | loadedProgram _ => .debug
  | stoppedPlayback _ => .error
  | workerCrashed => .error

/-- The wording of an event. Addresses and words are hexadecimal, sizes are decimal, and a fault
is worded as it words itself. -/
def message : Event → String
  | executing address opcode instruction =>
    Numeral.hex 4 address.toNat ++ ": " ++ Numeral.hex 4 opcode.toNat ++ " " ++ instruction.text
  | ignoredRoutine address => "Ignoring machine code routine at " ++ Numeral.hex 3 address
  | returned target => "return to " ++ Numeral.hex 4 target.toNat
  | skippedOpcode opcode address =>
    "Skipping the unknown opcode " ++ Numeral.hex 4 opcode.toNat ++ " at " ++
      Numeral.hex 4 address.toNat ++ "."
  | halted address fault =>
    "Halting at " ++ Numeral.hex 4 address.toNat ++ " after '" ++ fault.message ++ "'."
  | rejectedProgram size => "Rejected a rom of " ++ Numeral.decimal size ++ " bytes."
  | loadedProgram size => "Loaded a rom of " ++ Numeral.decimal size ++ " bytes."
  | stoppedPlayback fault => "Stopped the execution: " ++ fault.message
  | workerCrashed => "The worker thread panicked."

/-- The journal line of an event: the mark of its level and its wording. -/
def line (event : Event) : String := event.level.name ++ " " ++ event.message

end Event

/-- The journal lines that a reader with this threshold sees, in order. The others leave no trace.
-/
def Level.lines (threshold : Level) (events : List Event) : List String :=
  (events.filter fun event => threshold.admits event.level).map Event.line

end Chip8
