import Chip8.Proofs.Instruction.Encoding
import Chip8.Proofs.Machine.Transition
import Mathlib.Data.List.Induction

/-!
# Waiting for a key

A wait is known twice: the status names the register that the key is for, and the
counter has gone back onto the instruction that waits. As long as both agree the
next step repeats the wait or stores the key, and a step leaves the machine
waiting exactly if it says so.

Only loading a program can part them. It changes memory and nothing else, so a
program that is loaded over the waiting instruction leaves a status that speaks of
an instruction which is gone. The status stays until a reset or until a wait is
executed again; until then other instructions run under it.
-/

namespace Chip8

/-- A wait for a key has a single word for each register, and no other word is read as one, under
either policy for words that are unknown. -/
theorem Instruction.decodeUnder_awaitKey_iff (policy : UnknownWords) (opcode : Opcode)
    (register : Nat) :
    decodeUnder policy opcode = .ok (some (.awaitKey register)) ↔
      register < Registers.count ∧ opcode.toNat = 0xF00A + 0x100 * register := by
  rw [decodeUnder_eq_ok_some_iff policy opcode (.awaitKey register) rfl]
  simp [Encodable, Fits, operands, Operand.Fits, word, eq_comm]

namespace Machine

/-- The word at the counter waits for a key into the register. This is about memory and the
counter and says nothing about the status. -/
structure StandsAtWait (machine : Machine) (register : Nat) : Prop where
  inside : machine.InMemory
  exists_register : register < Registers.count
  word : machine.nextWord.toNat = 0xF00A + 0x100 * register

/-- Where the status speaks of a wait, the counter stands at it. Nothing is asked of a machine
with another status, even if it stands at a wait that it has not executed yet. -/
def Truthful (machine : Machine) : Prop :=
  ∀ register, machine.status = .awaitingKey register → machine.StandsAtWait register

/-- Without a pressed key the wait comes again: the counter stays and the status names the
register. -/
theorem awaitKey_of_released (machine : Machine) (register : Nat)
    (released : machine.keypad.lowestPressed = none) :
    machine.awaitKey register =
      { machine := { machine with status := .awaitingKey register }
        flow := .again
        signal := .wait } := by
  simp only [awaitKey, released]

/-- A pressed key ends the wait. Of several pressed keys the lowest is stored. -/
theorem awaitKey_of_pressed (machine : Machine) (register key : Nat)
    (pressed : machine.keypad.lowestPressed = some key) :
    machine.awaitKey register =
      { machine :=
          { machine with
            registers := machine.registers.write register key.toUInt8
            status := .running } } := by
  simp only [awaitKey, pressed]

/-- A step at a wait has the effect of the wait, whether the machine has been waiting there or
comes to it for the first time. -/
theorem step_of_standsAtWait (machine : Machine) (register : Nat) (active : machine.Active)
    (stands : machine.StandsAtWait register) :
    machine.step =
      (machine.fetched.awaitKey register).complete
        [.executing machine.counter machine.nextWord (.awaitKey register)] := by
  have decoded := (Instruction.decodeUnder_awaitKey_iff machine.config.unknown _ _).mpr
    ⟨stands.exists_register, stands.word⟩
  exact step_eq_of_transition machine _ (.executed _ _ active stands.inside decoded rfl)

/-- A step at a wait without a pressed key repeats it. Of the machine it changes the last word and
the status, and the timers if the machine counts them down itself. -/
theorem step_of_released (machine : Machine) (register : Nat) (active : machine.Active)
    (stands : machine.StandsAtWait register) (released : machine.keypad.lowestPressed = none) :
    machine.step.result = .ok .wait ∧
      machine.step.machine =
        { machine with
          opcode := machine.nextWord
          status := .awaitingKey register
          delay := machine.config.cadence.countDown machine.delay
          sound := machine.config.cadence.countDown machine.sound } := by
  rw [step_of_standsAtWait machine register active stands,
    awaitKey_of_released machine.fetched register released, Effect.machine_complete]
  simp [Effect.complete, Flow.target, fetched]

/-- A step at a wait with pressed keys stores the lowest of them and goes on. -/
theorem step_of_pressed (machine : Machine) (register key : Nat) (active : machine.Active)
    (stands : machine.StandsAtWait register)
    (pressed : machine.keypad.lowestPressed = some key) :
    machine.step.result = .ok .quiet ∧
      machine.step.machine =
        { machine with
          opcode := machine.nextWord
          registers := machine.registers.write register key.toUInt8
          counter := (Flow.next.target machine.counter.toNat).toUInt16
          status := .running
          delay := machine.config.cadence.countDown machine.delay
          sound := machine.config.cadence.countDown machine.sound } := by
  rw [step_of_standsAtWait machine register active stands,
    awaitKey_of_pressed machine.fetched register key pressed, Effect.machine_complete]
  exact ⟨rfl, rfl⟩

/-- A step that is not at a wait neither begins nor ends one, although it may halt the machine.
The proof goes through the transitions; only one instruction touches the status, and its word is
not at the counter. -/
theorem status_step_of_not_standsAtWait (machine : Machine)
    (elsewhere : ∀ register, ¬machine.StandsAtWait register) :
    (machine.step.machine.status = machine.status ∨
        ∃ fault, machine.step.machine.status = .halted fault) ∧
      machine.step.result ≠ .ok .wait := by
  have taken := machine.transition_step
  generalize machine.step = outcome at taken ⊢
  cases taken with
  | halted fault stopped => exact ⟨.inl rfl, by simp⟩
  | overran active outside => exact ⟨.inr ⟨_, rfl⟩, by simp [fail]⟩
  | refused cause active inside unknown => exact ⟨.inr ⟨_, rfl⟩, by simp [fail]⟩
  | failed instruction cause active inside decoded unable =>
    exact ⟨.inr ⟨_, rfl⟩, by simp [fail]⟩
  | skipped active inside unknown =>
    rw [Effect.machine_complete]
    exact ⟨.inl rfl, by simp [Effect.complete]⟩
  | executed instruction effect active inside decoded done =>
    have other : instruction.awaitsKey = false := by
      cases instruction
      case awaitKey register =>
        obtain ⟨fits, word⟩ := (Instruction.decodeUnder_awaitKey_iff _ _ _).mp decoded
        exact absurd ⟨inside, fits, word⟩ (elsewhere register)
      all_goals rfl
    obtain ⟨status, signal⟩ := (confined_of_execute _ _ _ done).status other
    rw [Effect.machine_complete]
    exact ⟨.inl status, by simpa [Effect.complete] using signal⟩

/-- Only a machine that stands at a wait without a pressed key signals one. With the steps at a
wait this makes the signal a matter of the counter, the memory and the keys alone. -/
theorem standsAtWait_of_wait (machine : Machine) (waited : machine.step.result = .ok .wait) :
    machine.Active ∧ machine.keypad.lowestPressed = none ∧
      ∃ register, machine.StandsAtWait register := by
  have active : machine.Active := by
    intro fault stopped
    rw [step_of_halted machine fault stopped] at waited
    contradiction
  have stands : ∃ register, machine.StandsAtWait register := by
    by_contra elsewhere
    exact (status_step_of_not_standsAtWait machine (not_exists.mp elsewhere)).2 waited
  obtain ⟨register, stands⟩ := stands
  refine ⟨active, ?_, register, stands⟩
  cases keys : machine.keypad.lowestPressed with
  | none => rfl
  | some key =>
    rw [(step_of_pressed machine register key active stands keys).1] at waited
    contradiction

/-- A step at a wait leaves a truthful machine, whatever its status was: either it waits there,
and the counter has not moved, or the wait is over. -/
theorem truthful_step_of_standsAtWait (machine : Machine) (register : Nat)
    (active : machine.Active) (stands : machine.StandsAtWait register) :
    machine.step.machine.Truthful := by
  intro other awaiting
  cases keys : machine.keypad.lowestPressed with
  | none =>
    rw [(step_of_released machine register active stands keys).2] at awaiting ⊢
    cases awaiting
    exact ⟨stands.inside, stands.exists_register, stands.word⟩
  | some key =>
    rw [(step_of_pressed machine register key active stands keys).2] at awaiting
    contradiction

/-- A step of a truthful machine leaves a truthful machine. At a wait it would do so in any case;
elsewhere the status is kept, and a truthful machine that is elsewhere has no wait to keep. -/
theorem truthful_step (machine : Machine) (truthful : machine.Truthful) :
    machine.step.machine.Truthful := by
  by_cases active : machine.Active
  · by_cases waits : ∃ register, machine.StandsAtWait register
    · obtain ⟨register, stands⟩ := waits
      exact truthful_step_of_standsAtWait machine register active stands
    · have elsewhere := not_exists.mp waits
      intro register awaiting
      rcases (status_step_of_not_standsAtWait machine elsewhere).1 with same | ⟨fault, stopped⟩
      · rw [same] at awaiting
        exact absurd (truthful register awaiting) (elsewhere register)
      · rw [stopped] at awaiting
        contradiction
  · obtain ⟨fault, stopped⟩ := halted_of_not_active machine active
    rw [step_of_halted machine fault stopped]
    exact truthful

/-- A machine that neither waits nor has halted is truthful, so a machine is when it is switched
on or reset. -/
theorem truthful_of_running (machine : Machine) (running : machine.status = .running) :
    machine.Truthful := by
  intro register awaiting
  rw [running] at awaiting
  contradiction

/-- Loading the program replaces the word at which the machine says it waits. -/
def Overwrites (machine : Machine) (program : List UInt8) : Prop :=
  (∃ register, machine.status = .awaitingKey register) ∧
    (machine.obey (.load program)).machine.nextWord ≠ machine.nextWord

/-- The command makes the status speak of the word at the counter again, by a reset or by
executing a wait. After either the machine is truthful, whatever it was before. -/
def Settles (machine : Machine) (command : Command) : Prop :=
  command = .reset ∨
    command = .step ∧ machine.Active ∧ ∃ register, machine.StandsAtWait register

/-- Whenever a history loaded a program over a word that was waited at, it settled
the matter later. -/
def Settled (start : Machine) (history : List Command) : Prop :=
  ∀ earlier program later, history = earlier ++ .load program :: later →
    (start.after earlier).Overwrites program →
      ∃ before settling behind, later = before ++ settling :: behind ∧
        (start.after (earlier ++ .load program :: before)).Settles settling

/-- A passive command other than a load leaves memory alone, and with it the word at the counter.
-/
theorem memory_obey (machine : Machine) (command : Command) (passive : command.isPassive = true)
    (other : ∀ program, command ≠ .load program) :
    (machine.obey command).machine.memory = machine.memory := by
  cases command with
  | step => contradiction
  | reset => contradiction
  | load program => exact absurd rfl (other program)
  | setKey key pressed =>
    unfold obey setKey
    dsimp only
    cases machine.keypad.set key pressed <;> rfl
  | tick => rfl
  | setKeys keypad => rfl
  | setEntropy entropy => rfl

/-- A command that does not load over a wait keeps a machine truthful. A passive command keeps the
status and the counter, and if it keeps the word there as well the machine still stands at its
wait. -/
theorem truthful_obey (machine : Machine) (command : Command) (truthful : machine.Truthful)
    (harmless : ∀ program, command = .load program → ¬machine.Overwrites program) :
    (machine.obey command).machine.Truthful := by
  by_cases passive : command.isPassive = true
  · have same := sameCore_obey machine command passive
    intro register awaiting
    rw [same.status] at awaiting
    have stands := truthful register awaiting
    have word : (machine.obey command).machine.nextWord = machine.nextWord := by
      by_cases loads : ∃ program, command = .load program
      · obtain ⟨program, rfl⟩ := loads
        by_contra changed
        exact harmless program rfl ⟨⟨register, awaiting⟩, changed⟩
      · have other : ∀ program, command ≠ .load program :=
          fun program loading => loads ⟨program, loading⟩
        rw [nextWord, memory_obey machine command passive other, same.counter, nextWord]
    refine ⟨?_, stands.exists_register, ?_⟩
    · rw [InMemory, same.counter]
      exact stands.inside
    · rw [word]
      exact stands.word
  · cases command <;> simp only [Command.isPassive, not_true_eq_false] at passive
    case step => exact truthful_step machine truthful
    case reset => exact truthful_of_running _ rfl

/-- A settling command leaves a truthful machine, with no assumption about the machine that obeys
it. -/
theorem truthful_of_settles (machine : Machine) (command : Command)
    (settles : machine.Settles command) : (machine.obey command).machine.Truthful := by
  rcases settles with rfl | ⟨rfl, active, register, stands⟩
  · exact truthful_of_running _ rfl
  · exact truthful_step_of_standsAtWait machine register active stands

/-- What a history has settled stays settled without its last command, unless that
command is the one that settles. -/
theorem settled_of_append (start : Machine) (earlier : List Command) (command : Command)
    (settled : start.Settled (earlier ++ [command]))
    (unrelated : ¬(start.after earlier).Settles command) : start.Settled earlier := by
  intro first program later split overwrites
  obtain ⟨before, settling, behind, within, settles⟩ :=
    settled first program (later ++ [command]) (by rw [split]; simp) overwrites
  -- Only if nothing stands behind the settling command can it be the last one.
  rcases behind.eq_nil_or_concat with rfl | ⟨rest, last, rfl⟩
  · obtain ⟨rfl, same⟩ := List.append_inj' within rfl
    cases same
    exact absurd (split ▸ settles) unrelated
  · refine ⟨before, settling, rest, ?_, settles⟩
    rw [List.concat_eq_append, ← List.cons_append, ← List.append_assoc] at within
    exact (List.append_inj' within rfl).1

/-- A history that settles what it loads over leaves a truthful machine. The
induction is on its last command: either that command settles the status, or the
history was settled before it. -/
theorem truthful_after (start : Machine) (history : List Command) (truthful : start.Truthful)
    (settled : start.Settled history) : (start.after history).Truthful := by
  induction history using List.reverseRecOn with
  | nil => exact truthful
  | append_singleton earlier command inductionHypothesis =>
    rw [after_append]
    by_cases settles : (start.after earlier).Settles command
    · exact truthful_of_settles _ command settles
    · have before := inductionHypothesis (settled_of_append start earlier command settled settles)
      refine truthful_obey _ command before ?_
      rintro program rfl overwrites
      obtain ⟨_, _, _, within, _⟩ := settled earlier program [] rfl overwrites
      simp at within

/-- A successful step at a wait leaves the machine waiting exactly if it signals a
wait, whatever the status was. -/
theorem awaiting_step_iff_of_standsAtWait (machine : Machine) (register : Nat)
    (active : machine.Active) (stands : machine.StandsAtWait register) (signal : Signal)
    (succeeded : machine.step.result = .ok signal) :
    (∃ register, machine.step.machine.status = .awaitingKey register) ↔ signal = .wait := by
  cases keys : machine.keypad.lowestPressed with
  | none =>
    obtain ⟨waited, left⟩ := step_of_released machine register active stands keys
    rw [waited] at succeeded
    cases succeeded
    simp [left]
  | some key =>
    obtain ⟨stored, left⟩ := step_of_pressed machine register key active stands keys
    rw [stored] at succeeded
    cases succeeded
    simp [left]

/-- A successful step of a truthful machine leaves it waiting exactly if it signals a wait.
Without the assumption the machine could keep the status of a wait that is gone, and step on
without a signal. -/
theorem awaiting_step_iff (machine : Machine) (truthful : machine.Truthful) (signal : Signal)
    (succeeded : machine.step.result = .ok signal) :
    (∃ register, machine.step.machine.status = .awaitingKey register) ↔ signal = .wait := by
  by_cases active : machine.Active
  · by_cases waits : ∃ register, machine.StandsAtWait register
    · obtain ⟨register, stands⟩ := waits
      exact awaiting_step_iff_of_standsAtWait machine register active stands signal succeeded
    · have elsewhere := not_exists.mp waits
      obtain ⟨status, noWait⟩ := status_step_of_not_standsAtWait machine elsewhere
      constructor
      · rintro ⟨register, awaiting⟩
        rcases status with same | ⟨fault, stopped⟩
        · rw [same] at awaiting
          exact absurd (truthful register awaiting) (elsewhere register)
        · rw [stopped] at awaiting
          contradiction
      · rintro rfl
        exact absurd succeeded noWait
  · obtain ⟨fault, stopped⟩ := halted_of_not_active machine active
    rw [step_of_halted machine fault stopped] at succeeded
    contradiction

/-- A settled history that ends in a successful step leaves the machine waiting exactly if that
step signalled a wait. If the step itself is the one that settles, it stands at a wait; otherwise
the history was settled before it and had led to a truthful machine. -/
theorem awaiting_after_step_iff (start : Machine) (earlier : List Command)
    (truthful : start.Truthful) (settled : start.Settled (earlier ++ [.step])) (signal : Signal)
    (succeeded : (start.after earlier).step.result = .ok signal) :
    (∃ register, (start.after (earlier ++ [.step])).status = .awaitingKey register) ↔
      signal = .wait := by
  rw [after_append]
  by_cases settles : (start.after earlier).Settles .step
  · obtain ⟨_, active, register, stands⟩ := settles.resolve_left (by simp)
    exact awaiting_step_iff_of_standsAtWait _ register active stands signal succeeded
  · have before := settled_of_append start earlier .step settled settles
    exact awaiting_step_iff _ (truthful_after start earlier truthful before) signal succeeded

/-- Behind every history that settled what it loaded over, a machine whose status is a wait stands
at that wait, so its next step repeats the wait or stores the lowest pressed key; and if the
history ends in a successful step, the machine is waiting exactly if that step signalled a wait.

The invariant is that the status is true of the word at the counter. It holds when the machine is
switched on, and every command keeps it but a load that replaces the word the machine waits at; a
reset or another wait brings it back. That is why the history has to have settled each such load:
without it the status goes on speaking of a word that is no longer there, as the machine at the
end of this file shows. -/
theorem awaiting_of_settled (config : Config) (entropy : Entropy) (history : List Command)
    (settled : (powerOn config entropy).Settled history) :
    let machine := (powerOn config entropy).after history
    (∀ register, machine.status = .awaitingKey register →
      machine.StandsAtWait register ∧
        (machine.keypad.lowestPressed = none →
          machine.step.result = .ok .wait ∧
            machine.step.machine.status = .awaitingKey register ∧
            machine.step.machine.counter = machine.counter) ∧
        ∀ key, machine.keypad.lowestPressed = some key →
          machine.step.result = .ok .quiet ∧
            machine.step.machine.status = .running ∧
            machine.step.machine.registers = machine.registers.write register key.toUInt8) ∧
      ∀ earlier signal, history = earlier ++ [.step] →
        ((powerOn config entropy).after earlier).step.result = .ok signal →
          ((∃ register, machine.status = .awaitingKey register) ↔ signal = .wait) := by
  intro machine
  have starts : (powerOn config entropy).Truthful := truthful_of_running _ rfl
  refine ⟨fun register awaiting => ?_, fun earlier signal ends succeeded => ?_⟩
  · have active : machine.Active := by simp [Active, awaiting]
    have stands := truthful_after _ history starts settled register awaiting
    refine ⟨stands, fun released => ?_, fun key pressed => ?_⟩
    · obtain ⟨waited, left⟩ := step_of_released machine register active stands released
      exact ⟨waited, by rw [left], by rw [left]⟩
    · obtain ⟨stored, left⟩ := step_of_pressed machine register key active stands pressed
      exact ⟨stored, by rw [left], by rw [left]⟩
  · subst ends
    exact awaiting_after_step_iff _ earlier starts settled signal succeeded

/-- A wait that is loaded over, a reset, and another wait. -/
def resetHistory : List Command :=
  [.load [0xF0, 0x0A], .step, .load [0x60, 0x00], .reset, .load [0xF3, 0x0A], .step]

/-- The reset settles what was loaded over, so the second wait is told truthfully. -/
theorem awaiting_resetHistory :
    (powerOn {} (Entropy.cycle #[])).Settled resetHistory ∧
      ((powerOn {} (Entropy.cycle #[])).after resetHistory).StandsAtWait 3 ∧
      ((powerOn {} (Entropy.cycle #[])).after resetHistory).step.result = .ok .wait := by
  have settled : (powerOn {} (Entropy.cycle #[])).Settled resetHistory := by
    intro earlier program later split overwrites
    match earlier with
    | [] =>
      obtain ⟨⟨register, awaiting⟩, _⟩ := overwrites
      simp [powerOn] at awaiting
    | [_, _, _, _] =>
      simp only [resetHistory, List.cons_append, List.nil_append, List.cons.injEq] at split
      obtain ⟨rfl, rfl, rfl, rfl, _⟩ := split
      obtain ⟨⟨register, awaiting⟩, _⟩ := overwrites
      simp [obey, reset] at awaiting
    | [_, _] =>
      simp only [resetHistory, List.cons_append, List.nil_append, List.cons.injEq] at split
      obtain ⟨_, _, _, rfl⟩ := split
      exact ⟨[], .reset, _, rfl, .inl rfl⟩
    | [_] | [_, _, _] | [_, _, _, _, _] | _ :: _ :: _ :: _ :: _ :: _ :: _ =>
      simp [resetHistory] at split
  obtain ⟨awaiting, released⟩ :
      ((powerOn {} (Entropy.cycle #[])).after resetHistory).status = .awaitingKey 3 ∧
        ((powerOn {} (Entropy.cycle #[])).after resetHistory).keypad.lowestPressed = none := by
    decide +kernel
  obtain ⟨stands, waits, _⟩ :=
    (awaiting_of_settled {} (Entropy.cycle #[]) resetHistory settled).1 3 awaiting
  exact ⟨settled, stands, (waits released).1⟩

/-- A machine that waits for a key into register zero, over whose wait another
program has been loaded. -/
def loadedOver : Machine :=
  (powerOn {} (Entropy.cycle #[])).after [.load [0xF0, 0x0A], .step, .load [0x60, 0x00]]

/-- Its status is a wait although no wait is at its counter, and a step that does
not wait leaves it so. -/
theorem loadedOver_awaits :
    loadedOver.status = .awaitingKey 0 ∧ loadedOver.nextWord = 0x6000 ∧
      ¬loadedOver.Truthful ∧ loadedOver.step.result = .ok .quiet ∧
      loadedOver.step.machine.status = .awaitingKey 0 := by
  obtain ⟨status, word, stepped, left⟩ :
      loadedOver.status = .awaitingKey 0 ∧ loadedOver.nextWord = 0x6000 ∧
        loadedOver.step.result = .ok .quiet ∧
        loadedOver.step.machine.status = .awaitingKey 0 := by decide +kernel
  refine ⟨status, word, fun truthful => ?_, stepped, left⟩
  have stands := (truthful 0 status).word
  rw [word] at stands
  exact absurd stands (by decide)

end Machine

end Chip8
