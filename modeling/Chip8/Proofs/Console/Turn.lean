import Chip8.Proofs.Console.Patience
import Chip8.Proofs.Console.Picture
import Chip8.Proofs.Machine.Failure

/-!
# Turns

Frames one after the other, told frame by frame: a turn is a console and the keys that
the host holds during its next frame. What the frame makes of the machine is the burst of
its steps, and the steps that a burst made succeeded, so they can be counted one at a
time. A frame that ends in a fault leaves the machine halted by it, having been allowed a
step.
-/

namespace Chip8

/-- A console before a frame, and the keys of the host during it. Statements about several frames
are statements about each turn of a list; the turn says by itself what its frame starts from and
what it does. -/
structure Turn where
  console : Console
  keys : Keypad

namespace Turn

/-- What the frame leaves behind. -/
def outcome (turn : Turn) : FrameOutcome := turn.console.frame turn.keys

/-- The machine as the frame begins: the keys of the host have replaced its copy, nothing else has
happened. -/
def opened (turn : Turn) : Machine := turn.console.machine.setKeys turn.keys

/-- The steps of the frame, taken by the machine as it begins. The number of cycles is the most
that are taken; a wait or a fault ends them early. -/
def burst (turn : Turn) : Burst := turn.opened.burst turn.console.pacing.cycles

/-- The fault that ends the frame. -/
def fault? (turn : Turn) : Option Fault :=
  match turn.outcome.result with
  | .ok _ => none
  | .error fault => some fault

/-- A fault ends the frame. -/
def faults (turn : Turn) : Bool := turn.fault?.isSome

/-- A fault is what the result of the frame says. -/
theorem fault?_eq_some_iff (turn : Turn) (fault : Fault) :
    turn.fault? = some fault ↔ turn.outcome.result = .error fault := by
  unfold fault?
  cases turn.outcome.result <;> simp

/-- Without a fault the frame has a report. -/
theorem fault?_eq_none_iff (turn : Turn) :
    turn.fault? = none ↔ ∃ report, turn.outcome.result = .ok report := by
  unfold fault?
  cases turn.outcome.result <;> simp

/-- The fault of the frame is that of its steps. Nothing that a frame does behind its steps can
fail, so the result of the frame only repeats what ended them. -/
theorem fault?_eq (turn : Turn) : turn.fault? = turn.burst.fault := by
  have concluded : turn.outcome = turn.console.conclude turn.burst := rfl
  cases ended : turn.burst.fault with
  | none =>
    rw [fault?_eq_none_iff, concluded]
    exact ⟨_, (Console.conclude_of_no_fault _ _ ended).2⟩
  | some fault =>
    rw [fault?_eq_some_iff, concluded]
    exact (Console.conclude_of_fault _ _ _ ended).2

end Turn

/-- The burst is behind the steps of a machine that it counts, all of which succeeded, and behind
a failing one as well if a fault ended it. A burst takes its steps by recursion and only reports
how many there were; with this fact each of them can be named by its index, as a step of the
machine after that many steps. -/
structure Burst.CountsSteps (burst : Burst) (machine : Machine) (most : Nat) : Prop where
  succeeded : ∀ index < burst.cycles,
    ∃ signal, (machine.afterSteps index).step.result = .ok signal
  ended : burst.fault = none → burst.machine = machine.afterSteps burst.cycles
  broken : ∀ fault, burst.fault = some fault →
    burst.cycles < most ∧ (machine.afterSteps burst.cycles).step.result = .error fault ∧
      burst.machine = (machine.afterSteps burst.cycles).step.machine

/-- A burst counts its steps. The proof follows the recursion of the burst: a failing first step
leaves it with no cycle and the fault, a waiting one with a single cycle, and behind any other the
rest of the burst is that of the next machine, so that an index into it moves up by one. -/
theorem Machine.countsSteps_burst (machine : Machine) (most : Nat) :
    (machine.burst most).CountsSteps machine most := by
  induction most generalizing machine with
  | zero =>
    exact ⟨fun index within => absurd within (Nat.not_lt_zero index), fun _ => rfl, nofun⟩
  | succ remaining inductionHypothesis =>
    cases result : machine.step.result with
    | error fault =>
      rw [burst_of_error machine remaining fault result]
      refine ⟨fun index within => absurd within (Nat.not_lt_zero index), nofun, ?_⟩
      intro cause stopped
      cases stopped
      exact ⟨Nat.zero_lt_succ remaining, result, rfl⟩
    | ok signal =>
      by_cases waits : signal = .wait
      · subst waits
        rw [burst_of_wait machine remaining result]
        refine ⟨fun index within => ?_, fun _ => rfl, nofun⟩
        cases Nat.lt_one_iff.mp within
        exact ⟨.wait, result⟩
      · have later := inductionHypothesis machine.step.machine
        rw [burst_of_goesOn machine remaining signal result waits]
        refine ⟨fun index within => ?_, later.ended, fun fault stopped => ?_⟩
        · cases index with
          | zero => exact ⟨signal, result⟩
          | succ earlier => exact later.succeeded earlier (Nat.lt_of_succ_lt_succ within)
        · obtain ⟨fewer, failed, left⟩ := later.broken fault stopped
          exact ⟨Nat.succ_lt_succ fewer, failed, left⟩

namespace Turn

/-- A frame counts its steps: they are a burst of the machine as the frame begins. -/
theorem countsSteps (turn : Turn) :
    turn.burst.CountsSteps turn.opened turn.console.pacing.cycles :=
  turn.opened.countsSteps_burst turn.console.pacing.cycles

/-- Behind a fault nothing follows the steps of a frame: the timers are left alone, so the console
keeps the machine that the failing step left. -/
theorem machine_of_error (turn : Turn) (fault : Fault)
    (failed : turn.outcome.result = .error fault) :
    turn.outcome.console.machine = turn.burst.machine := by
  rw [← fault?_eq_some_iff, fault?_eq] at failed
  exact congrArg Console.machine (Console.conclude_of_fault turn.console turn.burst fault failed).1

/-- Without a fault the timers are counted down behind the steps of a frame, if they are the
host's part. -/
theorem machine_of_faultless (turn : Turn) (faultless : turn.fault? = none) :
    turn.outcome.console.machine = Console.tickFrame turn.burst.machine := by
  rw [fault?_eq] at faultless
  exact congrArg Console.machine (Console.conclude_of_no_fault turn.console turn.burst faultless).1

/-- A frame that ends in a fault leaves the machine halted by it, and was allowed a step. The
second half matters to whoever goes on: a frame of no cycles takes no step and so cannot run into
the fault again. -/
theorem halted_of_fault (turn : Turn) (fault : Fault)
    (failed : turn.outcome.result = .error fault) :
    turn.outcome.console.machine.status = .halted fault ∧
      0 < turn.outcome.console.pacing.cycles := by
  have pace : turn.outcome.console.pacing = turn.console.pacing :=
    Console.pacing_obey turn.console (.frame turn.keys)
  rw [machine_of_error turn fault failed, pace]
  rw [← fault?_eq_some_iff, fault?_eq] at failed
  obtain ⟨fewer, stopped, left⟩ := turn.countsSteps.broken fault failed
  rw [left]
  exact ⟨(Machine.status_step_eq_halted_iff _ fault).mpr stopped, Nat.zero_lt_of_lt fewer⟩

end Turn

namespace Console

/-- The turns of frames under the keys of the host, in order. Each starts from the console that
the frame before it left, whether or not that frame ended in a fault. -/
def turns (console : Console) : List Keypad → List Turn
  | [] => []
  | keys :: rest => ⟨console, keys⟩ :: (console.frame keys).console.turns rest

/-- The console behind frames, and what they asked of the display. The frames are requests like
any other, so this is what a history of requests leads to. -/
def afterFrames (console : Console) (keys : List Keypad) : Console × List DisplayCall :=
  console.after (keys.map .frame)

/-- Frames go on from the console behind the first of them. -/
theorem afterFrames_cons (console : Console) (keys : Keypad) (rest : List Keypad) :
    console.afterFrames (keys :: rest) =
      let later := (console.frame keys).console.afterFrames rest
      (later.1, (console.frame keys).calls ++ later.2) := rfl

/-- A further frame starts from where the others lead. -/
theorem afterFrames_concat (console : Console) (earlier : List Keypad) (last : Keypad) :
    (console.afterFrames (earlier ++ [last])).1 =
      ((console.afterFrames earlier).1.frame last).console := by
  induction earlier generalizing console with
  | nil => rfl
  | cons first rest inductionHypothesis => exact inductionHypothesis (console.frame first).console

/-- The turns of frames that go on are followed by those of the continuation, which starts from
the console that the earlier frames lead to. The induction is on the earlier frames. -/
theorem turns_append (console : Console) (earlier later : List Keypad) :
    console.turns (earlier ++ later) =
      console.turns earlier ++ (console.afterFrames earlier).1.turns later := by
  induction earlier generalizing console with
  | nil => rfl
  | cons first rest inductionHypothesis =>
    rw [List.cons_append, turns, inductionHypothesis, afterFrames_cons]
    rfl

end Console

end Chip8
