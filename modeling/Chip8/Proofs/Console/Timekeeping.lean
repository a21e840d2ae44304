import Chip8.Proofs.Console.Turn
import Chip8.Proofs.Machine.Timers
import Mathlib.Data.List.DropRight

/-!
# Keeping time

A timer lives in rounds: in each of them it may be started, and behind that it is
counted down once. What remains of it is therefore the value that it was last started at,
less the rounds since then, the starting one included.

What a round is depends on who counts. Where the host counts, it is a frame that ended
without a fault, however many steps it made and whether or not a wait ended it early, and
the last start in the frame is the one that counts. Where the machine counts, it is a
successful step, a wait included, and the end of a frame is no round at all.
-/

namespace Chip8

namespace Countdown

/-- The last start among those that there were. A round that starts nothing is passed over. -/
def latest? (starts : List (Option Countdown)) : Option Countdown :=
  (starts.filterMap id).getLast?

/-- The ticks that remain of a timer behind rounds, told by what each of them started it at.
Without any start the rounds are taken off what there was before. Otherwise the start is counted
from, and the round that made it counts like the ones behind it. -/
def remaining (before : Countdown) (rounds : List (Option Countdown)) : Nat :=
  match latest? rounds with
  | none => before.value.toNat - rounds.length
  | some start => start.value.toNat - ((rounds.rtakeWhile Option.isNone).length + 1)

/-- A later start is the last one, and otherwise the last one stays. -/
theorem latest?_concat (starts : List (Option Countdown)) (start : Option Countdown) :
    latest? (starts ++ [start]) = start.or (latest? starts) := by
  cases start with
  | none => simp [latest?, List.filterMap_append]
  | some value => simp [latest?, List.filterMap_append]

/-- One more round starts the timer or not, and counts it down. So a timer that follows this rule
round by round is described by the closed formula over all of them. -/
theorem remaining_concat (before : Countdown) (rounds : List (Option Countdown))
    (start : Option Countdown) :
    remaining before (rounds ++ [start]) =
      match start with
      | none => remaining before rounds - 1
      | some value => value.value.toNat - 1 := by
  cases start with
  | some value => simp [remaining, latest?_concat]
  | none =>
    rw [remaining, remaining, latest?_concat, Option.none_or, List.rtakeWhile_concat]
    cases latest? rounds with
    | none => simp; omega
    | some value => simp; omega

/-- A single round starts the timer or not, and counts it down. This is a frame where the host
counts. -/
theorem remaining_singleton (before : Countdown) (start : Option Countdown) :
    remaining before [start] = (start.getD before).value.toNat - 1 := by
  rw [← List.nil_append [start], remaining_concat]
  cases start <;> rfl

/-- What remains behind rounds is what later rounds start from. The induction is on the later
rounds, taken from their end, where the closed formula changes by one round. -/
theorem remaining_append (before middle : Countdown) (earlier later : List (Option Countdown))
    (reached : middle.value.toNat = remaining before earlier) :
    remaining before (earlier ++ later) = remaining middle later := by
  induction later using List.reverseRecOn with
  | nil => rw [List.append_nil, ← reached]; rfl
  | append_singleton rounds last inductionHypothesis =>
    rw [← List.append_assoc, remaining_concat, remaining_concat, inductionHypothesis]

end Countdown

namespace Machine

/-- One step more is a step from where the others lead. -/
theorem afterSteps_succ_eq_step (machine : Machine) (count : Nat) :
    machine.afterSteps (count + 1) = (machine.afterSteps count).step.machine := by
  rw [afterSteps, List.replicate_succ', after_append]
  rfl

/-- What each of a number of steps starts a timer at, told by the word and the register before the
step. -/
def timerStarts (machine : Machine) (timer : Timer) (count : Nat) : List (Option Countdown) :=
  (List.range count).map fun index => (machine.afterSteps index).timerStart? timer

/-- A step more may start the timer again, and does not change what the earlier ones did. -/
theorem timerStarts_succ (machine : Machine) (timer : Timer) (count : Nat) :
    machine.timerStarts timer (count + 1) =
      machine.timerStarts timer count ++ [(machine.afterSteps count).timerStart? timer] := by
  rw [timerStarts, List.range_succ, List.map_append]
  rfl

/-- Where the host counts, successful steps leave a timer at its last start. None of them counts
down, however many there are. Steps that fail are excluded, because such a step starts nothing
whatever word is at the counter. -/
theorem timer_afterSteps_of_host (machine : Machine) (hosted : machine.config.cadence = .host)
    (count : Nat)
    (succeeded : ∀ index < count, ∃ signal, (machine.afterSteps index).step.result = .ok signal)
    (timer : Timer) :
    (machine.afterSteps count).timer timer =
      (Countdown.latest? (machine.timerStarts timer count)).getD (machine.timer timer) := by
  induction count with
  | zero => rfl
  | succ count inductionHypothesis =>
    have before := inductionHypothesis fun index within =>
      succeeded index (Nat.lt_succ_of_lt within)
    obtain ⟨signal, result⟩ := succeeded count (Nat.lt_succ_self count)
    have config : (machine.afterSteps count).config.cadence = .host := by
      rw [afterSteps, config_after, hosted]
    rw [afterSteps_succ_eq_step, timer_step _ signal result timer, config, timerStarts_succ,
      Countdown.latest?_concat, before]
    cases (machine.afterSteps count).timerStart? timer <;> rfl

/-- Where the machine counts, every successful step is a round, whatever its instruction does
otherwise; a wait for a key is one as well. -/
theorem timer_afterSteps_of_instruction (machine : Machine)
    (clocked : machine.config.cadence = .instruction) (count : Nat)
    (succeeded : ∀ index < count, ∃ signal, (machine.afterSteps index).step.result = .ok signal)
    (timer : Timer) :
    ((machine.afterSteps count).timer timer).value.toNat =
      Countdown.remaining (machine.timer timer) (machine.timerStarts timer count) := by
  induction count with
  | zero => rfl
  | succ count inductionHypothesis =>
    have before := inductionHypothesis fun index within =>
      succeeded index (Nat.lt_succ_of_lt within)
    obtain ⟨signal, result⟩ := succeeded count (Nat.lt_succ_self count)
    have config : (machine.afterSteps count).config.cadence = .instruction := by
      rw [afterSteps, config_after, clocked]
    have counted : ∀ timer, (Cadence.instruction.countDown timer).value.toNat =
        timer.value.toNat - 1 := Countdown.toNat_tick
    rw [afterSteps_succ_eq_step, timer_step _ signal result timer, config, counted,
      timerStarts_succ, Countdown.remaining_concat]
    cases (machine.afterSteps count).timerStart? timer with
    | none => rw [Option.getD_none, before]
    | some start => rfl

end Machine

namespace Turn

/-- What each successful step of the frame starts a timer at. The step that ends the frame by a
fault is not among them. -/
def starts (turn : Turn) (timer : Timer) : List (Option Countdown) :=
  turn.opened.timerStarts timer turn.burst.cycles

/-- The rounds of a timer in a frame that ends without a fault. Where the host counts, the frame
is one round and its last start is that of the round; where the machine counts, each step is one.
-/
def rounds (turn : Turn) (timer : Timer) : List (Option Countdown) :=
  match turn.console.machine.config.cadence with
  | .host => [Countdown.latest? (turn.starts timer)]
  | .instruction => turn.starts timer

/-- The keys do nothing to the timers, so a frame begins with those that the console had. -/
theorem timer_opened (turn : Turn) (timer : Timer) :
    turn.opened.timer timer = turn.console.machine.timer timer := by
  cases timer <;> rfl

/-- The step that fails does nothing to the timers: behind the burst they are what its successful
steps made of them. -/
theorem timer_burst (turn : Turn) (timer : Timer) :
    turn.burst.machine.timer timer =
      (turn.opened.afterSteps turn.burst.cycles).timer timer := by
  cases fault : turn.burst.fault with
  | none => rw [turn.countsSteps.ended fault]
  | some cause =>
    obtain ⟨_, failed, left⟩ := turn.countsSteps.broken cause fault
    rw [left, Machine.timer_step_of_error _ cause failed timer]

/-- Where the host counts, the steps of a frame leave a timer at its last start, also those of a
frame that a fault ends. -/
theorem timer_burst_of_host (turn : Turn) (hosted : turn.console.machine.config.cadence = .host)
    (timer : Timer) :
    turn.burst.machine.timer timer =
      (Countdown.latest? (turn.starts timer)).getD (turn.console.machine.timer timer) := by
  rw [timer_burst, ← timer_opened]
  exact turn.opened.timer_afterSteps_of_host hosted _ turn.countsSteps.succeeded timer

/-- What remains of a timer behind a frame without a fault is what remains behind its rounds.
Under each cadence one of the two counts, the steps or the end of the frame. -/
theorem timer_of_faultless (turn : Turn) (faultless : turn.fault? = none) (timer : Timer) :
    (turn.outcome.console.machine.timer timer).value.toNat =
      Countdown.remaining (turn.console.machine.timer timer) (turn.rounds timer) := by
  have kept : turn.burst.machine.config = turn.console.machine.config :=
    turn.opened.config_burst turn.console.pacing.cycles
  rw [machine_of_faultless turn faultless, Console.tickFrame, kept, rounds]
  cases cadence : turn.console.machine.config.cadence with
  | host =>
    dsimp only
    rw [Machine.timer_tick, Countdown.toNat_tick, timer_burst_of_host turn cadence timer,
      Countdown.remaining_singleton]
  | instruction =>
    dsimp only
    rw [timer_burst, ← timer_opened]
    exact turn.opened.timer_afterSteps_of_instruction cadence _ turn.countsSteps.succeeded timer

end Turn

namespace Console

/-- What remains of a timer behind frames without a fault is what remains behind all of their
rounds. The induction is on the frames; the first one sets the value from which the rounds of the
others count. -/
theorem timer_afterFrames (console : Console) (keys : List Keypad)
    (faultless : ∀ turn ∈ console.turns keys, turn.fault? = none) (timer : Timer) :
    ((console.afterFrames keys).1.machine.timer timer).value.toNat =
      Countdown.remaining (console.machine.timer timer)
        ((console.turns keys).flatMap (·.rounds timer)) := by
  induction keys generalizing console with
  | nil => rfl
  | cons first rest inductionHypothesis =>
    obtain ⟨now, later⟩ := List.forall_mem_cons.mp faultless
    have reached := Turn.timer_of_faultless ⟨console, first⟩ now timer
    rw [afterFrames_cons, turns, List.flatMap_cons, Countdown.remaining_append _ _ _ _ reached]
    exact inductionHypothesis _ later

/-- Frames keep the configuration, so the same party counts down throughout. -/
theorem config_afterFrames (console : Console) (keys : List Keypad) :
    (console.afterFrames keys).1.machine.config = console.machine.config := by
  induction keys generalizing console with
  | nil => rfl
  | cons first rest inductionHypothesis =>
    exact (inductionHypothesis _).trans (config_frame console first)

/-- A frame that ends without a fault asks for a tone exactly if it leaves ticks of the sound
timer. The report is made behind the tick of the frame, not before it. -/
theorem sound_of_faultless (console : Console) (keys : Keypad) (report : Frame)
    (succeeded : (console.frame keys).result = .ok report) :
    report.sound = true ↔
      0 < ((console.frame keys).console.machine.timer .sound).value.toNat := by
  rw [(patientFrame_of_ok console keys report succeeded).1]
  exact Machine.isSounding_iff _

/-- Over any frames that end without a fault, what remains of a timer is what it was last started
at, or what it had at first, less the rounds since then: frames where the host counts, and
successful steps, to which the end of a frame adds nothing, where the machine does. Each of the
frames asks for a tone exactly if ticks of the sound timer remain behind the rounds up to it. And
where the host counts, a further frame that ends in a fault leaves each timer at the last start in
it, or as it was, with no tick.

The steps of a frame are taken one at a time, and each applies the law of a step: start, then
count down if that is the machine's part. A step more and a round more change both sides of the
equation alike, which carries it through a frame and then through all frames. Frames that end in a
fault are excluded from the first two parts, because the host does not count behind them; the last
part says what happens there instead. -/
theorem timers_remain_by_rounds (console : Console) (keys : List Keypad)
    (faultless : ∀ turn ∈ console.turns keys, turn.faults = false) :
    let reached := (console.afterFrames keys).1
    (∀ timer, (reached.machine.timer timer).value.toNat =
        Countdown.remaining (console.machine.timer timer)
          ((console.turns keys).flatMap (·.rounds timer))) ∧
      (∀ earlier last later, keys = earlier ++ last :: later →
        ∃ report, ((console.afterFrames earlier).1.frame last).result = .ok report ∧
          (report.sound = true ↔
            0 < Countdown.remaining (console.machine.timer .sound)
              ((console.turns (earlier ++ [last])).flatMap (·.rounds .sound)))) ∧
      (console.machine.config.cadence = .host → ∀ last fault,
        (reached.frame last).result = .error fault →
          ∀ timer, (reached.frame last).console.machine.timer timer =
            (Countdown.latest? ((⟨reached, last⟩ : Turn).starts timer)).getD
              (reached.machine.timer timer)) := by
  intro reached
  have sound : ∀ turn ∈ console.turns keys, turn.fault? = none := by
    intro turn played
    rw [← Option.not_isSome_iff_eq_none]
    exact Bool.eq_false_iff.mp (faultless turn played)
  refine ⟨timer_afterFrames console keys sound, ?_, ?_⟩
  · rintro earlier last later rfl
    rw [← List.singleton_append, ← List.append_assoc, turns_append] at sound
    obtain ⟨before, _⟩ := List.forall_mem_append.mp sound
    have now : (⟨(console.afterFrames earlier).1, last⟩ : Turn).fault? = none := by
      apply before
      rw [turns_append]
      exact List.mem_append_right _ List.mem_cons_self
    obtain ⟨report, result⟩ := (Turn.fault?_eq_none_iff _).mp now
    refine ⟨report, result, ?_⟩
    rw [sound_of_faultless _ _ report result, ← afterFrames_concat,
      timer_afterFrames console (earlier ++ [last]) before]
  · intro hosted last fault failed timer
    have cadence : reached.machine.config.cadence = .host := by
      rw [config_afterFrames, hosted]
    have ended := Turn.machine_of_error ⟨reached, last⟩ fault failed
    exact (congrArg (Machine.timer · timer) ended).trans
      (Turn.timer_burst_of_host ⟨reached, last⟩ cadence timer)

/-- A program that starts the sound timer, waits for a key, starts it again and returns
from no call. -/
def beeper (cadence : Cadence) : Console where
  machine :=
    (Machine.powerOn { cadence } (Entropy.cycle #[])).after
      [.load [0x60, 0x05, 0xF0, 0x18, 0xF1, 0x0A, 0x60, 0x09, 0xF0, 0x18, 0x00, 0xEE]]

/-- Three frames without a key. -/
def silence : List Keypad := List.replicate 3 .released

/-- The key that ends the wait. -/
def stroke : Keypad := .ofKeys (· == 3)

/-- Of the five ticks the host takes three, one behind each frame, and the machine four, one
at the start and three at the wait. A key then leads into the fault, and the host takes
nothing off the second start. -/
theorem beeper_remains :
    (((beeper .host).afterFrames silence).1.machine.timer .sound).value.toNat = 2 ∧
      (((beeper .instruction).afterFrames silence).1.machine.timer .sound).value.toNat = 1 ∧
      (((beeper .host).afterFrames silence).1.frame stroke).result = .error (.stack .empty) ∧
      (((beeper .host).afterFrames silence).1.frame stroke).console.machine.timer .sound =
        ⟨9⟩ := by
  obtain ⟨faultless, starts, failed, again⟩ :
      (∀ turn ∈ (beeper .host).turns silence, turn.faults = false) ∧
        ((beeper .host).turns silence).flatMap (·.rounds .sound) = [some ⟨5⟩, none, none] ∧
        (((beeper .host).afterFrames silence).1.frame stroke).result = .error (.stack .empty) ∧
        Countdown.latest?
            ((⟨((beeper .host).afterFrames silence).1, stroke⟩ : Turn).starts .sound) =
          some ⟨9⟩ := by
    decide +kernel
  obtain ⟨clockedFaultless, clockedStarts⟩ :
      (∀ turn ∈ (beeper .instruction).turns silence, turn.faults = false) ∧
        ((beeper .instruction).turns silence).flatMap (·.rounds .sound) =
          [none, some ⟨5⟩, none, none, none] := by
    decide +kernel
  obtain ⟨hosted, _, untouched⟩ := timers_remain_by_rounds (beeper .host) silence faultless
  obtain ⟨clocked, _, _⟩ :=
    timers_remain_by_rounds (beeper .instruction) silence clockedFaultless
  have hostedSound := hosted .sound
  have clockedSound := clocked .sound
  have left := untouched rfl stroke _ failed .sound
  rw [starts] at hostedSound
  rw [clockedStarts] at clockedSound
  rw [again] at left
  exact ⟨hostedSound, clockedSound, failed, left⟩

end Console

end Chip8
