import Chip8.Journal

/-!
# Workers

A worker calls a task again and again until it is stopped. A task may crash, and
then the worker is dead but does not say so before it is stopped. Starting a
worker stops it first, so there is never more than one task.

Time is left out: what a worker is told is how many calls it gets to make.
-/

namespace Chip8

/-- What has become of a worker's task. -/
inductive Worker where
  /-- There is none. -/
  | idle
  /-- It is being called. -/
  | running
  /-- One of its calls crashed. -/
  | crashed
  deriving DecidableEq, Repr

namespace Worker

/-- A task is being called. A crashed task is not, although the worker has not been stopped. -/
def isAlive (worker : Worker) : Bool := decide (worker = .running)

/-- Ends the task. That it had crashed is reported now, and only once, since the worker is idle
afterwards. -/
def stop (worker : Worker) : Worker × List Event :=
  match worker with
  | .idle => (.idle, [])
  | .running => (.idle, [])
  | .crashed => (.idle, [.workerCrashed])

/-- Makes up to a number of calls from a call number on, until one crashes. Answers with the
numbers of the calls that began, the crashing one included. -/
def call (crashes : Nat → Bool) (number : Nat) : Nat → Worker × List Nat
  | 0 => (.running, [])
  | remaining + 1 =>
    if crashes number then (.crashed, [number])
    else
      let (worker, later) := call crashes (number + 1) remaining
      (worker, number :: later)

/-- Stops the worker and gives it a task with a number of calls to make, counted from one. A crash
of the task before it is reported by the stop. -/
def start (worker : Worker) (crashes : Nat → Bool) (calls : Nat) :
    Worker × List Nat × List Event :=
  let (_, events) := worker.stop
  let (started, seen) := call crashes 1 calls
  (started, seen, events)

end Worker

end Chip8
