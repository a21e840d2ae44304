import Chip8.Proofs.Machine.Failure
import Chip8.Proofs.Machine.Success

/-!
# Timers of a step

Each timer has one kind of word that starts it. A successful step first starts the
timer, if its word does so, and then counts it down if that is the machine's part; a
failing step does neither. Both timers obey the same law, so it is stated for a timer by
its name.
-/

namespace Chip8

/-- The two timers. They differ in the words that start them and in what they are for, and in
nothing else. -/
inductive Timer where
  | delay
  | sound
  deriving DecidableEq, Repr

/-- The selector of the words that start a timer. -/
def Timer.selector : Timer → UInt8
  | delay => 0x15
  | sound => 0x18

/-- The instruction that starts a timer at a register. -/
def Timer.start : Timer → Nat → Instruction
  | delay => .startDelay
  | sound => .startSound

/-- A word that starts a timer is read as nothing else, because a word is read in one way only. -/
theorem Timer.eq_start_of_isTransfer (timer : Timer) (word : Opcode)
    (found : Option Instruction) (read : Instruction.ReadFrom word found)
    (starts : word.IsTransfer timer.selector) : found = some (timer.start word.first) := by
  cases timer with
  | delay => exact read.unique (.startDelay starts)
  | sound => exact read.unique (.startSound starts)

namespace Machine

/-- A timer by its name. -/
def timer (machine : Machine) : Timer → Countdown
  | .delay => machine.delay
  | .sound => machine.sound

/-- What the word at the counter starts a timer at, if it starts the timer. This looks at the word
and at a register, not at what the step does. -/
def timerStart? (machine : Machine) (timer : Timer) : Option Countdown :=
  if machine.nextWord.IsTransfer timer.selector then
    some ⟨machine.registers.read machine.nextWord.first⟩
  else none

/-- Counting down counts each timer down. -/
theorem timer_tick (machine : Machine) (timer : Timer) :
    machine.tick.timer timer = (machine.timer timer).tick := by
  cases timer <;> rfl

/-- The machine sounds exactly while its sound timer runs. -/
theorem isSounding_iff (machine : Machine) :
    machine.isSounding = true ↔ 0 < (machine.timer .sound).value.toNat :=
  machine.sound.isActive_iff

/-- A completed effect counts each timer down as the cadence asks. -/
theorem timer_complete (effect : Effect) (events : List Event) (timer : Timer) :
    (effect.complete events).machine.timer timer =
      effect.machine.config.cadence.countDown (effect.machine.timer timer) := by
  rw [Effect.machine_complete]
  cases timer <;> rfl

/-- An instruction that starts no timer leaves both alone, and one that starts a timer leaves the
other alone. All instructions but two are settled by their confinement. -/
theorem timer_of_execute (machine : Machine) (instruction : Instruction) (effect : Effect)
    (timer : Timer) (unstarted : ∀ x, instruction ≠ timer.start x)
    (executed : machine.execute instruction = .ok effect) :
    effect.machine.timer timer = machine.timer timer := by
  cases starts : instruction.startsTimer with
  | false =>
    obtain ⟨delay, sound⟩ := (confined_of_execute _ _ _ executed).timers starts
    cases timer with
    | delay => exact delay
    | sound => exact sound
  | true =>
    cases instruction <;> simp only [Instruction.startsTimer, Bool.false_eq_true] at starts
    case startDelay x =>
      cases executed
      cases timer with
      | delay => exact absurd rfl (unstarted x)
      | sound => rfl
    case startSound x =>
      cases executed
      cases timer with
      | delay => rfl
      | sound => exact absurd rfl (unstarted x)

/-- What a word is read as starts a timer at the register of the word if that is its word, and
does nothing else to a timer. -/
theorem timer_of_perform (machine : Machine) {word : Opcode} {found : Option Instruction}
    (read : Instruction.ReadFrom word found) (effect : Effect)
    (performed : machine.perform found = .ok effect) (timer : Timer) :
    effect.machine.timer timer =
      if word.IsTransfer timer.selector then ⟨machine.registers.read word.first⟩
      else machine.timer timer := by
  split
  · next starts =>
    cases timer.eq_start_of_isTransfer _ _ read starts
    cases timer <;> cases performed <;> rfl
  · next elsewhere =>
    cases found with
    | none =>
      cases performed
      rfl
    | some instruction =>
      apply timer_of_execute machine instruction effect timer _ performed
      rintro x rfl
      cases timer <;> cases read <;> contradiction

/-- A successful step starts a timer if its word does, and counts it down behind that if this is
the machine's part. So a timer that is started under the instruction cadence has already lost a
tick behind its own step. -/
theorem timer_step (machine : Machine) (signal : Signal)
    (succeeded : machine.step.result = .ok signal) (timer : Timer) :
    machine.step.machine.timer timer =
      machine.config.cadence.countDown
        ((machine.timerStart? timer).getD (machine.timer timer)) := by
  obtain ⟨found, effect, events, performs, _, completed⟩ :=
    performs_of_ok machine signal succeeded
  rw [completed, timer_complete, performs.config,
    timer_of_perform machine.fetched performs.read effect performs.done timer, timerStart?]
  split <;> rfl

/-- A failing step leaves the timers alone, under either cadence, because nothing of it is
completed. -/
theorem timer_step_of_error (machine : Machine) (fault : Fault)
    (failed : machine.step.result = .error fault) (timer : Timer) :
    machine.step.machine.timer timer = machine.timer timer := by
  by_cases active : machine.Active
  · rw [(failsWith_of_step machine active fault failed).2]
    cases timer <;> rfl
  · obtain ⟨cause, stopped⟩ := halted_of_not_active machine active
    rw [step_of_halted machine cause stopped]

end Machine

end Chip8
