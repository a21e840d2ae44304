import Chip8.Console

/-!
# Playback

A playback runs one frame of its console at every interval. The first fault stops
it for good: it is reported once, and later intervals do nothing at all.
-/

namespace Chip8

/-- A console that is run at intervals. -/
structure Playback where
  console : Console
  /-- A fault has occurred. -/
  stopped : Bool := false

/-- What intervals leave behind. -/
structure PlaybackOutcome where
  playback : Playback
  /-- What was asked of the display, in order. -/
  calls : List DisplayCall := []
  /-- What was reported, in order. -/
  events : List Event := []

namespace Playback

/-- One interval under the keys of the host. A fault stops the playback behind its frame, and is
reported there. -/
def interval (playback : Playback) (keys : Keypad) : PlaybackOutcome :=
  if playback.stopped then { playback }
  else
    let outcome := playback.console.frame keys
    match outcome.result with
    | .ok _ =>
      { playback := { playback with console := outcome.console }
        calls := outcome.calls
        events := outcome.events }
    | .error fault =>
      { playback := { console := outcome.console, stopped := true }
        calls := outcome.calls
        events := outcome.events ++ [.stoppedPlayback fault] }

/-- Intervals one after the other, each under keys of its own. They go on when the playback has
stopped, as a clock of the host does, but then they do nothing. -/
def intervals (playback : Playback) : List Keypad → PlaybackOutcome
  | [] => { playback }
  | keys :: rest =>
    let first := playback.interval keys
    let later := first.playback.intervals rest
    { playback := later.playback
      calls := first.calls ++ later.calls
      events := first.events ++ later.events }

/-- A stopped playback ignores its intervals: nothing is run, asked or reported. -/
theorem interval_of_stopped (playback : Playback) (keys : Keypad)
    (stopped : playback.stopped = true) : playback.interval keys = { playback } := by
  simp only [interval, stopped, if_true]

end Playback

end Chip8
