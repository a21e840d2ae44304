import Chip8.Machine.Step

/-!
# Frames

A frame makes up to a fixed number of steps. It ends early at a wait for a key,
because the keys do not change within a frame, and at a fault. What the steps
drew is remembered over everything that comes later in the frame.
-/

namespace Chip8

/-- Frames, and ticks of the timers, in a second. -/
abbrev framesPerSecond : Nat := 60

/-- The pace of a console: how much it does in a frame, and how long a frame lasts. -/
structure Pacing where
  /-- The most steps in a frame. -/
  cycles : Nat := 10
  /-- Milliseconds from frame to frame. -/
  interval : Nat := 1000 / framesPerSecond
  deriving DecidableEq, Repr

/-- The report of a frame that ended without a fault. A frame that ends in one has no report, only
the fault. -/
structure Frame where
  /-- The steps that were made. -/
  cycles : Nat := 0
  /-- The screen was presented. -/
  drawn : Bool := false
  /-- The host is to emit a tone. -/
  sound : Bool := false
  deriving DecidableEq, Repr

/-- What the steps of a frame leave behind, before the frame is ended. -/
structure Burst where
  machine : Machine
  /-- How many steps succeeded. -/
  cycles : Nat := 0
  /-- One of them signalled a change of the screen. -/
  drawn : Bool := false
  /-- The fault that ended the steps. -/
  fault : Option Fault := none
  /-- What was reported, in order. -/
  events : List Event := []

/-- Makes up to a number of steps, until a wait or a fault. A step that waits is counted, since it
succeeded; a step that fails is not. The drawing of any step is remembered over those that come
later. -/
def Machine.burst (machine : Machine) : Nat → Burst
  | 0 => { machine }
  | remaining + 1 =>
    let outcome := machine.step
    match outcome.result with
    | .error fault =>
      { machine := outcome.machine, fault := some fault, events := outcome.events }
    | .ok .wait => { machine := outcome.machine, cycles := 1, events := outcome.events }
    | .ok signal =>
      let later := outcome.machine.burst remaining
      { later with
        cycles := later.cycles + 1
        drawn := decide (signal = .draw) || later.drawn
        events := outcome.events ++ later.events }

/-- A frame never makes more steps than its pace allows, by induction along the recursion. -/
theorem Machine.cycles_burst_le (machine : Machine) (most : Nat) :
    (machine.burst most).cycles ≤ most := by
  induction most generalizing machine with
  | zero => exact Nat.le_refl 0
  | succ remaining inductionHypothesis =>
    rw [Machine.burst]
    split
    · exact Nat.zero_le _
    · exact Nat.succ_le_succ (Nat.zero_le _)
    · exact Nat.succ_le_succ (inductionHypothesis _)

end Chip8
