import Chip8.Console
import Chip8.Proofs.Machine.Burst
import Chip8.Proofs.Machine.KeyWait
import Mathlib.Logic.Function.Iterate

/-!
# Patient frames

A frame ends at its first wait for a key. A patient frame does not: it attempts
all the steps of its pace and only a fault ends it earlier. Nothing is lost by
ending early, because a wait is where stepping comes to rest. The keys do not
change within a frame, so the step behind a wait is the same wait again, and all
that it moves are the timers, if the machine counts them down itself.
-/

namespace Chip8

/-- Counting down is subtraction that stops at zero, and counting down repeatedly is the
subtraction of as many. So the timers of two machines can be compared as numbers. -/
theorem Countdown.toNat_iterate_tick (timer : Countdown) (ticks : Nat) :
    (Countdown.tick^[ticks] timer).value.toNat = timer.value.toNat - ticks := by
  induction ticks with
  | zero => rfl
  | succ earlier inductionHypothesis =>
    rw [Function.iterate_succ_apply', toNat_tick, inductionHypothesis, Nat.sub_sub]

/-- How many of the steps that its pace allowed a burst did not attempt. A fault leaves none to
attempt, because it ends a patient burst as well. -/
def Burst.spared (burst : Burst) (most : Nat) : Nat :=
  match burst.fault with
  | some _ => 0
  | none => most - burst.cycles

/-- One more step that was allowed and made leaves as many spared. -/
theorem Burst.spared_succ (burst longer : Burst) (most : Nat) (fault : longer.fault = burst.fault)
    (cycles : longer.cycles = burst.cycles + 1) : longer.spared (most + 1) = burst.spared most := by
  simp only [spared, fault, cycles, Nat.add_sub_add_right]

namespace Machine

/-- The machine behind a number of steps that do nothing but count down. Whether a step counts
down at all is a matter of the cadence, so under the host's this is the machine itself. -/
def idled (machine : Machine) (steps : Nat) : Machine :=
  { machine with
    delay := machine.config.cadence.countDown^[steps] machine.delay
    sound := machine.config.cadence.countDown^[steps] machine.sound }

/-- Idling goes on from where its first step leads. -/
theorem idled_succ (machine : Machine) (steps : Nat) :
    machine.idled (steps + 1) = (machine.idled 1).idled steps := rfl

/-- Where the host counts down, idling changes nothing: what a step does to a timer is then the
identity, and so is its iteration. -/
theorem idled_of_host (machine : Machine) (steps : Nat)
    (cadence : machine.config.cadence = .host) : machine.idled steps = machine := by
  have still : ∀ timer, Cadence.host.countDown^[steps] timer = timer :=
    fun timer => Function.iterate_fixed rfl steps
  unfold idled
  rw [cadence, still, still]

/-- Behind a wait comes the same wait, and it only counts down. The step that waited left the
counter, the memory and the keys as they were, so the machine behind it stands before the same
word with no key pressed. -/
theorem step_behind_wait (machine : Machine) (waited : machine.step.result = .ok .wait) :
    machine.step.machine.step.result = .ok .wait ∧
      machine.step.machine.step.machine = machine.step.machine.idled 1 := by
  obtain ⟨active, released, register, stands⟩ := standsAtWait_of_wait machine waited
  rw [(step_of_released machine register active stands released).2]
  exact step_of_released _ register (by simp [Active])
    ⟨stands.inside, stands.exists_register, stands.word⟩ released

/-- Makes up to a number of steps, until a fault. A wait does not end them; in everything else
this is the recursion of a burst. -/
def patientBurst (machine : Machine) : Nat → Burst
  | 0 => { machine }
  | remaining + 1 =>
    let outcome := machine.step
    match outcome.result with
    | .error fault =>
      { machine := outcome.machine, fault := some fault, events := outcome.events }
    | .ok signal =>
      let later := outcome.machine.patientBurst remaining
      { later with
        cycles := later.cycles + 1
        drawn := decide (signal = .draw) || later.drawn
        events := outcome.events ++ later.events }

/-- A patient burst ends at a fault, with the machine that the failing step left. -/
theorem patientBurst_of_error (machine : Machine) (remaining : Nat) (fault : Fault)
    (failed : machine.step.result = .error fault) :
    machine.patientBurst (remaining + 1) =
      { machine := machine.step.machine, fault := some fault, events := machine.step.events } := by
  simp only [patientBurst, failed]

/-- Behind any other step a patient burst goes on, also behind a wait. Cycles, drawings and events
are those of the step and of what comes later. -/
theorem patientBurst_of_ok (machine : Machine) (remaining : Nat) (signal : Signal)
    (succeeded : machine.step.result = .ok signal) :
    machine.patientBurst (remaining + 1) =
      let later := machine.step.machine.patientBurst remaining
      { later with
        cycles := later.cycles + 1
        drawn := decide (signal = .draw) || later.drawn
        events := machine.step.events ++ later.events } := by
  simp only [patientBurst, succeeded]

end Machine

/-- A burst that was patient instead attempts the steps that were spared, and all that they do is
to count down. They draw nothing and cannot fail, so the two bursts ask the same of the display
and end in the same fault, if in any. -/
structure Burst.Resumes (patient short : Burst) (most : Nat) : Prop where
  drawn : patient.drawn = short.drawn
  fault : patient.fault = short.fault
  cycles : patient.cycles = short.cycles + short.spared most
  machine : patient.machine = short.machine.idled (short.spared most)

namespace Machine

/-- Behind a wait a patient burst only counts down. The induction goes on at the
machine behind the wait, because that machine waits again. -/
theorem resumes_behind_wait (machine : Machine) (remaining : Nat)
    (waited : machine.step.result = .ok .wait) :
    (machine.step.machine.patientBurst remaining).Resumes { machine := machine.step.machine }
      remaining := by
  induction remaining generalizing machine with
  | zero => exact ⟨rfl, rfl, rfl, rfl⟩
  | succ remaining inductionHypothesis =>
    obtain ⟨again, idle⟩ := step_behind_wait machine waited
    have later := inductionHypothesis machine.step.machine again
    rw [patientBurst_of_ok _ remaining .wait again]
    refine ⟨later.drawn, later.fault, ?_, ?_⟩
    · simp only [later.cycles, Burst.spared, Nat.sub_zero, Nat.zero_add]
    · simp only [later.machine, Burst.spared, Nat.sub_zero]
      rw [idle, ← idled_succ]

/-- A patient burst resumes the burst that ends at its first wait. The induction is on the steps
that are allowed. A fault ends both bursts at the same step, a wait ends the short one and leaves
the other to idle, and behind any other step both go on at the same machine. -/
theorem resumes_burst (machine : Machine) (most : Nat) :
    (machine.patientBurst most).Resumes (machine.burst most) most := by
  induction most generalizing machine with
  | zero => exact ⟨rfl, rfl, rfl, rfl⟩
  | succ remaining inductionHypothesis =>
    cases result : machine.step.result with
    | error fault =>
      rw [burst_of_error machine remaining fault result,
        patientBurst_of_error machine remaining fault result]
      exact ⟨rfl, rfl, rfl, rfl⟩
    | ok signal =>
      rw [patientBurst_of_ok machine remaining signal result]
      by_cases waits : signal = .wait
      · subst waits
        rw [burst_of_wait machine remaining result]
        have later := resumes_behind_wait machine remaining result
        refine ⟨later.drawn, later.fault, ?_, ?_⟩
        · simp only [later.cycles, Burst.spared]
          omega
        · simpa only [Burst.spared, Nat.sub_zero, Nat.add_sub_cancel] using later.machine
      · -- The step counts among the allowed and among the made, so it spares nothing.
        have longer := burst_of_goesOn machine remaining signal result waits
        have spared : (machine.burst (remaining + 1)).spared (remaining + 1) =
            (machine.step.machine.burst remaining).spared remaining :=
          Burst.spared_succ _ _ _ (by rw [longer]) (by rw [longer])
        have later := inductionHypothesis machine.step.machine
        rw [longer] at spared ⊢
        refine ⟨?_, later.fault, ?_, ?_⟩
        · simp only [later.drawn]
        · rw [spared]
          simp only [later.cycles]
          omega
        · rw [spared]
          exact later.machine

/-- A burst keeps the configuration, so the cadence behind its steps is the one before them. -/
theorem config_burst (machine : Machine) (most : Nat) :
    (machine.burst most).machine.config = machine.config := by
  induction most generalizing machine with
  | zero => rfl
  | succ remaining inductionHypothesis =>
    cases result : machine.step.result with
    | error fault =>
      rw [burst_of_error machine remaining fault result]
      exact config_step machine
    | ok signal =>
      by_cases waits : signal = .wait
      · subst waits
        rw [burst_of_wait machine remaining result]
        exact config_step machine
      · rw [burst_of_goesOn machine remaining signal result waits]
        exact (inductionHypothesis _).trans (config_step machine)

end Machine

namespace Console

/-- Ends a frame behind its steps. This is the frame without its first half, so that bursts which
differ can be compared through the same end. -/
def conclude (console : Console) (burst : Burst) : FrameOutcome :=
  let calls := if burst.drawn then [.present burst.machine.screen] else []
  match burst.fault with
  | some fault =>
    { console := { console with machine := burst.machine }
      result := .error fault
      calls
      events := burst.events }
  | none =>
    let machine := tickFrame burst.machine
    { console := { console with machine }
      result := .ok { cycles := burst.cycles, drawn := burst.drawn, sound := machine.isSounding }
      calls
      events := burst.events }

/-- A frame is a burst and the end of the frame. The burst starts from the machine with the keys
of the host. -/
theorem frame_eq_conclude (console : Console) (keys : Keypad) :
    console.frame keys =
      console.conclude ((console.machine.setKeys keys).burst console.pacing.cycles) := rfl

/-- Runs one frame that attempts all its steps, although the machine may wait. It starts and ends
as a frame does. -/
def patientFrame (console : Console) (keys : Keypad) : FrameOutcome :=
  console.conclude ((console.machine.setKeys keys).patientBurst console.pacing.cycles)

/-- Behind a fault only the steps count: the console takes their machine, with no timer counted
down behind them, and the frame results in the fault. -/
theorem conclude_of_fault (console : Console) (burst : Burst) (fault : Fault)
    (failed : burst.fault = some fault) :
    (console.conclude burst).console = { console with machine := burst.machine } ∧
      (console.conclude burst).result = .error fault := by
  unfold conclude
  rw [failed]
  exact ⟨rfl, rfl⟩

/-- Without a fault the frame ticks and is reported. The sound in the report is that of the
machine behind the tick. -/
theorem conclude_of_no_fault (console : Console) (burst : Burst) (succeeded : burst.fault = none) :
    (console.conclude burst).console = { console with machine := tickFrame burst.machine } ∧
      (console.conclude burst).result =
        .ok
          { cycles := burst.cycles
            drawn := burst.drawn
            sound := (tickFrame burst.machine).isSounding } := by
  unfold conclude
  rw [succeeded]
  exact ⟨rfl, rfl⟩

/-- What a frame asks of its display, whether or not it faults: the picture behind its steps if
one of them drew, and nothing otherwise. -/
theorem calls_conclude (console : Console) (burst : Burst) :
    (console.conclude burst).calls =
      if burst.drawn then [.present burst.machine.screen] else [] := by
  unfold conclude
  dsimp only
  split <;> rfl

/-- Idling commutes with the end of a frame. Only one of the two does anything: under the host's
cadence idling is nothing, and under that of the instructions the end of the frame is. -/
theorem tickFrame_idled (machine : Machine) (steps : Nat) :
    tickFrame (machine.idled steps) = (tickFrame machine).idled steps := by
  cases cadence : machine.config.cadence with
  | host =>
    have kept : (tickFrame machine).config.cadence = .host := by
      simp only [tickFrame, cadence, Machine.tick]
    rw [Machine.idled_of_host machine steps cadence, Machine.idled_of_host _ steps kept]
  | instruction => simp only [tickFrame, Machine.idled, cadence]

/-- A patient frame faults with the frame, and then nothing was spared. Both have made the same
steps and leave the same console. -/
theorem patientFrame_of_error (console : Console) (keys : Keypad) (fault : Fault)
    (failed : (console.frame keys).result = .error fault) :
    (console.patientFrame keys).result = .error fault ∧
      (console.patientFrame keys).console = (console.frame keys).console := by
  have resumed := (console.machine.setKeys keys).resumes_burst console.pacing.cycles
  rw [frame_eq_conclude] at failed ⊢
  unfold patientFrame
  generalize (console.machine.setKeys keys).burst console.pacing.cycles = short at *
  cases broken : short.fault with
  | none =>
    rw [(conclude_of_no_fault console short broken).2] at failed
    contradiction
  | some cause =>
    obtain ⟨ended, faulted⟩ := conclude_of_fault console short cause broken
    obtain ⟨patientEnded, patientFaulted⟩ :=
      conclude_of_fault console _ cause (resumed.fault.trans broken)
    have same := resumed.machine
    simp only [Burst.spared, broken] at same
    rw [patientFaulted, ← faulted, patientEnded, ended, same]
    exact ⟨failed, rfl⟩

/-- A patient frame reports with the frame, behind as many idle steps as were spared. The steps
that a frame reports are those it made, so what it spared can be read off its report. -/
theorem patientFrame_of_ok (console : Console) (keys : Keypad) (report : Frame)
    (succeeded : (console.frame keys).result = .ok report) :
    let ended := (console.frame keys).console
    let machine := ended.machine.idled (console.pacing.cycles - report.cycles)
    report.sound = ended.machine.isSounding ∧
      (console.patientFrame keys).console = { ended with machine } ∧
      (console.patientFrame keys).result =
        .ok
          { cycles := console.pacing.cycles
            drawn := report.drawn
            sound := machine.isSounding } := by
  have resumed := (console.machine.setKeys keys).resumes_burst console.pacing.cycles
  have within := (console.machine.setKeys keys).cycles_burst_le console.pacing.cycles
  rw [frame_eq_conclude] at succeeded ⊢
  unfold patientFrame
  generalize (console.machine.setKeys keys).burst console.pacing.cycles = short at *
  cases broken : short.fault with
  | some cause =>
    rw [(conclude_of_fault console short cause broken).2] at succeeded
    contradiction
  | none =>
    obtain ⟨ended, reported⟩ := conclude_of_no_fault console short broken
    obtain ⟨patientEnded, patientReported⟩ :=
      conclude_of_no_fault console _ (resumed.fault.trans broken)
    rw [reported] at succeeded
    cases succeeded
    have cycles := resumed.cycles
    have machine := resumed.machine
    simp only [Burst.spared, broken] at cycles machine
    rw [Nat.add_sub_cancel' within] at cycles
    rw [patientEnded, patientReported, ended, machine, cycles, resumed.drawn, tickFrame_idled]
    exact ⟨rfl, rfl, rfl⟩

/-- A patient frame asks the display for what the frame asks for. The spared steps draw nothing
and idling does not touch the screen. -/
theorem calls_patientFrame (console : Console) (keys : Keypad) :
    (console.patientFrame keys).calls = (console.frame keys).calls := by
  have resumed := (console.machine.setKeys keys).resumes_burst console.pacing.cycles
  rw [frame_eq_conclude, patientFrame, calls_conclude, calls_conclude, resumed.drawn,
    resumed.machine]
  rfl

/-- A frame keeps the configuration of its machine, at its steps as well as at its end. -/
theorem config_frame (console : Console) (keys : Keypad) :
    (console.frame keys).console.machine.config = console.machine.config := by
  have kept := (console.machine.setKeys keys).config_burst console.pacing.cycles
  rw [frame_eq_conclude]
  cases broken : ((console.machine.setKeys keys).burst console.pacing.cycles).fault with
  | some cause =>
    rw [(conclude_of_fault console _ cause broken).1]
    exact kept
  | none =>
    rw [(conclude_of_no_fault console _ broken).1]
    refine Eq.trans ?_ kept
    unfold tickFrame
    split <;> rfl

/-- Ending a frame at its first wait loses nothing. Whatever the console, the keys and the pace, a
patient frame asks the display for the same, faults exactly when the frame does, with the same
fault and the same console behind it, and reports the same drawing otherwise. Where the host
counts down, it also ends in the same console with the same sound; where the machine does, the
consoles differ at most in the timers, which lie lower by the spared steps but not below zero.

No hypothesis is needed, because a wait is a resting point of stepping: the keys are fixed for the
frame, so the step behind a wait is the same wait. Hence the patient burst is the short one
followed by idle steps, which commute with the end of the frame, and the two cadences only decide
what an idle step does to a timer. -/
theorem patientFrame_agrees (console : Console) (keys : Keypad) :
    let frame := console.frame keys
    let patient := console.patientFrame keys
    patient.calls = frame.calls ∧
      (∀ fault, patient.result = .error fault ↔ frame.result = .error fault) ∧
      (∀ fault, frame.result = .error fault → patient.console = frame.console) ∧
      ∀ report, frame.result = .ok report →
        ∃ longer, patient.result = .ok longer ∧
          longer.drawn = report.drawn ∧ longer.cycles = console.pacing.cycles ∧
          match console.machine.config.cadence with
          | .host => longer.sound = report.sound ∧ patient.console = frame.console
          | .instruction =>
            let spared := console.pacing.cycles - report.cycles
            let ended := frame.console.machine
            ∃ delay sound,
              patient.console = { frame.console with machine := { ended with delay, sound } } ∧
                delay.value.toNat = ended.delay.value.toNat - spared ∧
                sound.value.toNat = ended.sound.value.toNat - spared := by
  intro frame patient
  refine ⟨calls_patientFrame console keys, fun fault => ⟨?_, ?_⟩, ?_, ?_⟩
  · intro failed
    cases result : frame.result with
    | error cause =>
      rw [(patientFrame_of_error console keys cause result).1] at failed
      exact failed
    | ok report =>
      rw [(patientFrame_of_ok console keys report result).2.2] at failed
      contradiction
  · exact fun failed => (patientFrame_of_error console keys fault failed).1
  · exact fun fault failed => (patientFrame_of_error console keys fault failed).2
  · intro report succeeded
    obtain ⟨sound, ended, reported⟩ := patientFrame_of_ok console keys report succeeded
    refine ⟨_, reported, rfl, rfl, ?_⟩
    have kept : frame.console.machine.config = console.machine.config := config_frame console keys
    cases cadence : console.machine.config.cadence with
    | host =>
      have still : frame.console.machine.idled (console.pacing.cycles - report.cycles) =
          frame.console.machine := Machine.idled_of_host _ _ (by rw [kept, cadence])
      rw [still] at ended
      exact ⟨by rw [still, sound], ended⟩
    | instruction =>
      refine ⟨_, _, ended, ?_, ?_⟩
      · rw [kept, cadence]
        exact Countdown.toNat_iterate_tick _ _
      · rw [kept, cadence]
        exact Countdown.toNat_iterate_tick _ _

/-- A console whose program starts the delay, draws, starts the sound and waits for
a key, on a machine that counts down itself. -/
def dozer : Console where
  machine :=
    (Machine.powerOn { cadence := .instruction } (Entropy.cycle #[])).after
      [.load [0x60, 0x08, 0xF0, 0x15, 0xD0, 0x05, 0xF0, 0x18, 0xF1, 0x0A]]

/-- Its frame waits at the fifth of ten steps. The steps that it spares would have
run the delay out and all but run the sound out. -/
theorem patientFrame_dozer :
    (dozer.frame .released).result = .ok { cycles := 5, drawn := true, sound := true } ∧
      (dozer.frame .released).console.machine.delay = ⟨4⟩ ∧
      (dozer.frame .released).console.machine.sound = ⟨6⟩ ∧
      (dozer.patientFrame .released).calls = (dozer.frame .released).calls ∧
      (dozer.patientFrame .released).console.machine.delay = ⟨0⟩ ∧
      (dozer.patientFrame .released).console.machine.sound = ⟨1⟩ := by
  obtain ⟨reported, delay, sound⟩ :
      (dozer.frame .released).result = .ok { cycles := 5, drawn := true, sound := true } ∧
        (dozer.frame .released).console.machine.delay = ⟨4⟩ ∧
        (dozer.frame .released).console.machine.sound = ⟨6⟩ := by decide +kernel
  obtain ⟨calls, _, _, agrees⟩ := patientFrame_agrees dozer .released
  obtain ⟨_, _, _, _, ⟨delayLeft⟩, ⟨soundLeft⟩, ended, delayed, sounded⟩ := agrees _ reported
  rw [delay] at delayed
  rw [sound] at sounded
  refine ⟨reported, delay, sound, calls, ?_, ?_⟩
  · rw [ended]
    exact congrArg Countdown.mk (UInt8.toNat_inj.mp delayed)
  · rw [ended]
    exact congrArg Countdown.mk (UInt8.toNat_inj.mp sounded)

end Console

end Chip8
