import Chip8.Frame
import Chip8.Proofs.Machine.Transition

/-!
# Bursts

Which steps a burst makes, told without the burst: steps are made one after
another, and one of them is made if the pace allows it and everything before it
succeeded without a wait. What a burst remembers is then a fact about the steps
that it makes.
-/

namespace Chip8

namespace Machine

/-- The machine behind a number of steps, whether they succeed or not. -/
def afterSteps (machine : Machine) (count : Nat) : Machine :=
  machine.after (List.replicate count .step)

/-- Without steps nothing happens. -/
@[simp] theorem afterSteps_zero (machine : Machine) : machine.afterSteps 0 = machine := rfl

/-- Steps go on from where the first of them leads. -/
@[simp] theorem afterSteps_succ (machine : Machine) (count : Nat) :
    machine.afterSteps (count + 1) = machine.step.machine.afterSteps count := rfl

/-- The next step succeeds without a wait, so a burst makes another one behind it. -/
def GoesOn (machine : Machine) : Prop :=
  ∃ signal, machine.step.result = .ok signal ∧ signal ≠ .wait

/-- A burst of at most so many steps makes the step of this index, counted from zero. The burst
itself is not looked at: the pace allows the step, and every earlier one goes on. -/
structure MakesStep (machine : Machine) (most index : Nat) : Prop where
  allowed : index < most
  reached : ∀ earlier < index, (machine.afterSteps earlier).GoesOn

/-- A burst that may make a step makes its first one, as there is nothing before it that could
fail. -/
theorem makesStep_zero (machine : Machine) (remaining : Nat) :
    machine.MakesStep (remaining + 1) 0 :=
  ⟨Nat.zero_lt_succ remaining, fun _ before => absurd before (Nat.not_lt_zero _)⟩

/-- The later steps of a burst are the steps of a shorter one behind a first step that goes on.
This is the recursion of the burst, told by indices. -/
theorem makesStep_succ_iff (machine : Machine) (remaining index : Nat) :
    machine.MakesStep (remaining + 1) (index + 1) ↔
      machine.GoesOn ∧ machine.step.machine.MakesStep remaining index := by
  constructor
  · intro made
    refine ⟨made.reached 0 (Nat.zero_lt_succ index),
      ⟨Nat.lt_of_succ_lt_succ made.allowed, fun earlier before => ?_⟩⟩
    exact made.reached (earlier + 1) (Nat.succ_lt_succ before)
  · rintro ⟨goesOn, made⟩
    refine ⟨Nat.succ_lt_succ made.allowed, fun earlier before => ?_⟩
    cases earlier with
    | zero => exact goesOn
    | succ earlier => exact made.reached earlier (Nat.lt_of_succ_lt_succ before)

/-- Something is met by a step of a burst if the first step meets it, or if the first step goes on
and something later meets it. It turns a search through indices into the recursion of the burst.
-/
theorem exists_makesStep_succ (machine : Machine) (remaining : Nat) (Met : Machine → Prop) :
    (∃ index, machine.MakesStep (remaining + 1) index ∧ Met (machine.afterSteps index)) ↔
      Met machine ∨ machine.GoesOn ∧ ∃ index, machine.step.machine.MakesStep remaining index ∧
        Met (machine.step.machine.afterSteps index) := by
  rw [← Nat.or_exists_add_one]
  simp only [makesStep_zero, makesStep_succ_iff, afterSteps_zero, afterSteps_succ, true_and,
    and_assoc, exists_and_left]

/-- A burst ends at a fault, and the step that failed is not counted. -/
theorem burst_of_error (machine : Machine) (remaining : Nat) (fault : Fault)
    (failed : machine.step.result = .error fault) :
    machine.burst (remaining + 1) =
      { machine := machine.step.machine, fault := some fault, events := machine.step.events } := by
  simp only [burst, failed]

/-- A burst ends at a wait, and the step that waited is counted. -/
theorem burst_of_wait (machine : Machine) (remaining : Nat)
    (waited : machine.step.result = .ok .wait) :
    machine.burst (remaining + 1) =
      { machine := machine.step.machine, cycles := 1, events := machine.step.events } := by
  simp only [burst, waited]

/-- Behind any other step a burst goes on, and adds to what the rest of it leaves. -/
theorem burst_of_goesOn (machine : Machine) (remaining : Nat) (signal : Signal)
    (succeeded : machine.step.result = .ok signal) (goesOn : signal ≠ .wait) :
    machine.burst (remaining + 1) =
      let later := machine.step.machine.burst remaining
      { later with
        cycles := later.cycles + 1
        drawn := decide (signal = .draw) || later.drawn
        events := machine.step.events ++ later.events } := by
  cases signal with
  | wait => contradiction
  | draw => simp only [burst, succeeded]
  | quiet => simp only [burst, succeeded]

/-- A burst remembers a change of the screen exactly if one of its steps signalled it. The
induction is on the steps that are allowed; a first step that ends the burst leaves nothing to be
met later, also if it failed. -/
theorem drawn_burst_iff (machine : Machine) (most : Nat) :
    (machine.burst most).drawn = true ↔
      ∃ index, machine.MakesStep most index ∧
        (machine.afterSteps index).step.result = .ok .draw := by
  induction most generalizing machine with
  | zero =>
    constructor
    · intro drawn
      simp [burst] at drawn
    · rintro ⟨index, made, _⟩
      exact absurd made.allowed (Nat.not_lt_zero index)
  | succ remaining inductionHypothesis =>
    rw [exists_makesStep_succ machine remaining (fun reached => reached.step.result = .ok .draw)]
    cases result : machine.step.result with
    | error fault =>
      rw [burst_of_error machine remaining fault result]
      simp [GoesOn, result]
    | ok signal =>
      by_cases waits : signal = .wait
      · subst waits
        rw [burst_of_wait machine remaining result]
        simp [GoesOn, result]
      · rw [burst_of_goesOn machine remaining signal result waits]
        simp [GoesOn, result, waits, inductionHypothesis]

/-- A step that does not signal a change of the screen keeps it. Of the six cases only an executed
instruction could change it, and an effect that touches the screen says so. -/
theorem screen_step (machine : Machine) (quiet : machine.step.result ≠ .ok .draw) :
    machine.step.machine.screen = machine.screen := by
  have taken := machine.transition_step
  generalize machine.step = outcome at taken quiet ⊢
  cases taken with
  | halted fault stopped => rfl
  | overran active outside => rfl
  | refused cause active inside unknown => rfl
  | failed instruction cause active inside decoded unable => rfl
  | skipped active inside unknown =>
    rw [Effect.machine_complete]
    rfl
  | executed instruction effect active inside decoded done =>
    have unsignalled : effect.signal ≠ .draw := fun drawn => quiet (congrArg Except.ok drawn)
    rw [Effect.machine_complete]
    exact (confined_of_execute _ _ _ done).screen unsignalled

/-- A burst that remembers no change of the screen keeps it, by the law of each of its steps. A
fault at the end does not matter, since a step that fails changes nothing of the screen. -/
theorem screen_burst (machine : Machine) (most : Nat)
    (undrawn : (machine.burst most).drawn = false) :
    (machine.burst most).machine.screen = machine.screen := by
  induction most generalizing machine with
  | zero => rfl
  | succ remaining inductionHypothesis =>
    cases result : machine.step.result with
    | error fault =>
      rw [burst_of_error machine remaining fault result]
      exact screen_step machine (by simp [result])
    | ok signal =>
      by_cases waits : signal = .wait
      · subst waits
        rw [burst_of_wait machine remaining result]
        exact screen_step machine (by simp [result])
      · rw [burst_of_goesOn machine remaining signal result waits] at undrawn ⊢
        obtain ⟨unsignalled, laterUndrawn⟩ :
            signal ≠ .draw ∧ (machine.step.machine.burst remaining).drawn = false := by
          simpa using undrawn
        calc (machine.step.machine.burst remaining).machine.screen
            = machine.step.machine.screen := inductionHypothesis _ laterUndrawn
          _ = machine.screen := screen_step machine (by simp [result, unsignalled])

end Machine

end Chip8
