import Chip8.Frame
import Chip8.Machine.Command

/-!
# Consoles

A console runs a machine in frames between a display and a keypad of the host. A
frame takes the host's keys once, at its start.

The display is asked to present the screen at most once in a frame: when one of
its steps may have changed the screen, even if a fault came later. The timers are
counted down behind a frame that ended without a fault, if they are the host's
part. Between frames the host may also command the machine directly; a command
asks nothing of the display.
-/

namespace Chip8

/-- What a console asks of its display. -/
inductive DisplayCall where
  | clear
  | present (screen : Screen)
  deriving DecidableEq

namespace DisplayCall

/-- The picture that a display holds after a call. It does not depend on the picture before. -/
def picture : DisplayCall → Screen
  | clear => .blank
  | present screen => screen

/-- The picture that a display holds after calls, from the picture before them. Without calls that
is the picture before. -/
def pictureAfter (before : Screen) (calls : List DisplayCall) : Screen :=
  calls.foldl (fun _ call => call.picture) before

end DisplayCall

/-- A machine with the pace at which it is run. -/
structure Console where
  machine : Machine
  pacing : Pacing := {}

/-- What a frame leaves behind. -/
structure FrameOutcome where
  console : Console
  result : Except Fault Frame
  /-- What was asked of the display, in order. -/
  calls : List DisplayCall
  /-- What was reported, in order. -/
  events : List Event

/-- A request of the host to a console. -/
inductive ConsoleRequest where
  /-- Runs a frame under the keys of the host. -/
  | frame (keys : Keypad)
  /-- Commands the machine. -/
  | command (command : Command)

namespace Console

/-- What a new console asks of its display: to be cleared, whatever it showed before. -/
def openingCalls : List DisplayCall := [.clear]

/-- Counts the timers down behind a frame, if they are the host's part. -/
def tickFrame (machine : Machine) : Machine :=
  match machine.config.cadence with
  | .host => machine.tick
  | .instruction => machine

/-- Runs one frame under the keys of the host. The picture is asked for as soon as a step has
drawn, also if a fault comes later; the timers are counted down only without one. -/
def frame (console : Console) (keys : Keypad) : FrameOutcome :=
  let burst := (console.machine.setKeys keys).burst console.pacing.cycles
  let calls := if burst.drawn then [.present burst.machine.screen] else []
  match burst.fault with
  | some fault =>
    { console := { console with machine := burst.machine }
      result := .error fault
      calls
      events := burst.events }
  | none =>
    let machine := tickFrame burst.machine
    { console := { console with machine }
      result := .ok { cycles := burst.cycles, drawn := burst.drawn, sound := machine.isSounding }
      calls
      events := burst.events }

/-- Obeys a request. Answers with the console and what was asked of its display, which for a
command is nothing. -/
def obey (console : Console) : ConsoleRequest → Console × List DisplayCall
  | .frame keys =>
    let outcome := console.frame keys
    (outcome.console, outcome.calls)
  | .command command => ({ console with machine := (console.machine.obey command).machine }, [])

/-- The console after a history of requests, and everything that was asked of its
display on the way. -/
def after (console : Console) : List ConsoleRequest → Console × List DisplayCall
  | [] => (console, [])
  | request :: rest =>
    let (next, calls) := console.obey request
    let (last, later) := next.after rest
    (last, calls ++ later)

/-- A frame never asks more than once for the screen to be presented, however many of its steps
drew. -/
theorem length_calls_frame_le (console : Console) (keys : Keypad) :
    (console.frame keys).calls.length ≤ 1 := by
  unfold frame
  dsimp only
  split <;> split <;> simp

end Console

end Chip8
