import Chip8.Proofs.Machine.Exchange
import Chip8.Proofs.Machine.Failure

/-!
# The halt as a latch

A machine that has halted stays so until it is reset. The host may load, tick, set
keys and replace the entropy: every step repeats the fault, reports nothing and
leaves the machine as it is.

Nothing of what the fault speaks of can change meanwhile, so the fault describes
the machine for as long as it lasts: the counter that left memory, the word that
was refused, the depth of the stack. A halt is announced when it is entered and
never again.
-/

namespace Chip8

namespace Machine.SameCore

/-- A machine agrees with itself in its core. -/
theorem refl (machine : Machine) : machine.SameCore machine := by
  constructor <;> rfl

/-- Agreement is handed on, so what each command of a history keeps is kept by the history. -/
theorem trans {first second third : Machine} (earlier : first.SameCore second)
    (later : second.SameCore third) : first.SameCore third where
  config := earlier.config.trans later.config
  opcode := earlier.opcode.trans later.opcode
  registers := earlier.registers.trans later.registers
  index := earlier.index.trans later.index
  counter := earlier.counter.trans later.counter
  stack := earlier.stack.trans later.stack
  screen := earlier.screen.trans later.screen
  status := earlier.status.trans later.status

end Machine.SameCore

namespace Machine

/-- Short of a reset nothing reaches the core of a halted machine. The induction is on the
commands: a step repeats the fault and changes nothing, and what is neither a step nor a reset is
passive and does not touch the core, the status included. -/
theorem sameCore_after_of_halted (machine : Machine) (fault : Fault)
    (halted : machine.status = .halted fault) (commands : List Command)
    (unreset : ∀ command ∈ commands, command ≠ .reset) :
    (machine.after commands).SameCore machine := by
  induction commands generalizing machine with
  | nil => exact .refl machine
  | cons command rest inductionHypothesis =>
    obtain ⟨first, later⟩ := List.forall_mem_cons.mp unreset
    have kept : (machine.obey command).machine.SameCore machine := by
      rcases command.step_or_reset_or_passive with rfl | rfl | passive
      · rw [obey, step_of_halted machine fault halted]
        exact .refl machine
      · contradiction
      · exact sameCore_obey machine command passive
    exact (inductionHypothesis _ (kept.status.trans halted) later).trans kept

/-- A fault describes the machine that it halted. The counter stands where the word would have
reached past the end of memory, the word was refused by a machine that refuses, or the stack was
full or empty. -/
def Describes (fault : Fault) (machine : Machine) : Prop :=
  match fault with
  | .opcode (.outOfBounds pointer length) =>
    length = Memory.capacity ∧ pointer = machine.counter.toNat ∧ length ≤ pointer + 1
  | .opcode (.unsupported opcode) =>
    opcode = machine.opcode ∧ machine.config.unknown = .halt ∧
      Instruction.ofOpcode? opcode = none
  | .stack .full => machine.stack.depth = CallStack.capacity
  | .stack .empty => machine.stack.depth = 0

/-- Whatever fault has halted the machine describes it. Of a machine that has not halted this says
nothing. -/
def Described (machine : Machine) : Prop :=
  ∀ fault, machine.status = .halted fault → Describes fault machine

/-- What a fault describes lies in the core: the word, the configuration, the counter and the
stack. Memory is not part of it, so loading another program makes no fault wrong. -/
theorem describes_of_sameCore (fault : Fault) (machine other : Machine)
    (same : machine.SameCore other) (described : Describes fault other) :
    Describes fault machine := by
  rcases fault with (_ | _) | (_ | _) <;>
    simpa only [Describes, same.opcode, same.config, same.counter, same.stack] using described

/-- A fault describes the machine from the moment on in which it halts it. The failures of an
active machine say what caused them, and a step of a halted machine changes nothing. -/
theorem described_step (machine : Machine) (described : machine.Described) :
    machine.step.machine.Described := by
  intro fault stopped
  by_cases active : machine.Active
  · have failed := (status_step_eq_halted_iff machine fault).mp stopped
    obtain ⟨cause, left⟩ := failsWith_of_step machine active fault failed
    rw [left]
    cases cause with
    | outOfBounds outside => exact ⟨rfl, rfl, outside⟩
    | unsupported inside strict unknown => exact ⟨(if_pos inside).symm, strict, unknown⟩
    | stackEmpty _ _ empty => exact empty
    | stackFull _ _ full => exact full
  · obtain ⟨held, halted⟩ := halted_of_not_active machine active
    rw [step_of_halted machine held halted] at stopped ⊢
    exact described fault stopped

/-- No command parts a fault from what it describes: a step has just been dealt with, a reset
leaves no fault, and the others leave the core alone. -/
theorem described_obey (machine : Machine) (command : Command) (described : machine.Described) :
    (machine.obey command).machine.Described := by
  rcases command.step_or_reset_or_passive with rfl | rfl | passive
  · exact described_step machine described
  · intro fault stopped
    contradiction
  · have same := sameCore_obey machine command passive
    intro fault stopped
    rw [same.status] at stopped
    exact describes_of_sameCore fault _ machine same (described fault stopped)

end Machine

/-- The wording of the event begins as the announcement of a halt does. The test is on the text
that a reader of the log sees. -/
def Event.announcesHalt (event : Event) : Bool :=
  "Halting at".toList.isPrefixOf event.message.toList

/-- No other event is worded like a halt, so the text of an event says whether it is one. -/
theorem Event.announcesHalt_eq (event : Event) :
    event.announcesHalt =
      match event with
      | .halted _ _ => true
      | _ => false := by
  rw [Bool.eq_iff_iff, announcesHalt, List.isPrefixOf_iff_prefix]
  cases event <;> unfold message <;> simp [String.toList_append, Numeral.hex]

/-- The status is a halt. -/
def Status.isHalted : Status → Bool
  | .halted _ => true
  | _ => false

/-- A halt is one whatever the fault. -/
@[simp] theorem Status.isHalted_halted (fault : Fault) : (halted fault).isHalted = true := rfl

/-- The exchange halts a machine that had not halted before it. -/
def Exchange.entersHalt (exchange : Exchange) : Bool :=
  !exchange.machine.status.isHalted && exchange.response.machine.status.isHalted

namespace Machine

/-- A machine is active as long as its status is no halt; a wait for a key is one of the other
statuses. -/
theorem active_iff (machine : Machine) : machine.Active ↔ machine.status.isHalted = false := by
  cases status : machine.status <;> simp [Active, Status.isHalted, status]

/-- No remark of an instruction announces a halt. Instructions only remark on an address or a
target, in words of their own. -/
theorem countP_remarks_of_execute (machine : Machine) (instruction : Instruction)
    (effect : Effect) (executed : machine.execute instruction = .ok effect) :
    effect.remarks.countP Event.announcesHalt = 0 := by
  rw [List.countP_eq_zero]
  intro event remarked
  rcases remarks_of_execute _ _ _ executed event remarked with ⟨address, rfl⟩ | ⟨target, rfl⟩ <;>
    simp [Event.announcesHalt_eq]

/-- A step announces a halt exactly if it enters one, and then once. The failing transitions enter
a halt and report it as their only such event; the others neither enter one nor report one. -/
theorem countP_step (machine : Machine) :
    machine.step.events.countP Event.announcesHalt =
      if !machine.status.isHalted && machine.step.machine.status.isHalted then 1 else 0 := by
  have taken := machine.transition_step
  generalize machine.step = outcome at taken ⊢
  cases taken with
  | halted fault stopped => simp
  | overran active outside =>
    simp [fail, (active_iff machine).mp active, Event.announcesHalt_eq]
  | refused cause active inside unknown =>
    simp [fail, (active_iff machine).mp active, Event.announcesHalt_eq]
  | failed instruction cause active inside decoded unable =>
    simp [fail, (active_iff machine).mp active, Event.announcesHalt_eq]
  | skipped active inside unknown =>
    rw [Effect.machine_complete]
    simp [Effect.complete, fetched, Event.announcesHalt_eq]
  | executed instruction effect active inside decoded done =>
    have running := (active_iff _).mp (active_of_execute machine.fetched _ _ active done)
    have silent := countP_remarks_of_execute _ _ _ done
    rw [Effect.machine_complete]
    simp [Effect.complete, running, silent, Event.announcesHalt_eq]

/-- A command other than a step does not announce a halt; the only one of them that reports
anything at all is a load. -/
theorem countP_of_not_step (machine : Machine) (command : Command) (other : command ≠ .step) :
    (machine.obey command).events.countP Event.announcesHalt = 0 := by
  cases command with
  | step => contradiction
  | load program =>
    unfold obey
    dsimp only
    split <;> simp [Event.announcesHalt_eq]
  | setKey key pressed =>
    unfold obey
    dsimp only
    split <;> rfl
  | reset => rfl
  | tick => rfl
  | setKeys keypad => rfl
  | setEntropy entropy => rfl

/-- A command other than a step does not enter a halt. A reset leaves the machine running, and the
others do not touch the status. -/
theorem not_entersHalt_of_not_step (machine : Machine) (command : Command)
    (other : command ≠ .step) : (⟨machine, command⟩ : Exchange).entersHalt = false := by
  unfold Exchange.entersHalt Exchange.response
  rcases command.step_or_reset_or_passive with rfl | rfl | passive
  · contradiction
  · exact Bool.and_false _
  · rw [(sameCore_obey machine command passive).status]
    exact Bool.not_and_self _

end Machine

/-- An exchange announces a halt exactly if it enters one, and then once, whatever the command is.
-/
theorem Exchange.countP_events (exchange : Exchange) :
    exchange.response.events.countP Event.announcesHalt =
      if exchange.entersHalt then 1 else 0 := by
  obtain ⟨machine, command⟩ := exchange
  by_cases steps : command = .step
  · subst steps
    exact machine.countP_step
  · rw [machine.not_entersHalt_of_not_step command steps]
    exact machine.countP_of_not_step command steps

namespace Machine

/-- Over every history a halt is announced as often as one is entered. Both counts are sums over
the exchanges of the history, and they agree in each. -/
theorem countP_reports (machine : Machine) (history : List Command) :
    (machine.reports history).countP Event.announcesHalt =
      (machine.exchanges history).countP Exchange.entersHalt := by
  induction history generalizing machine with
  | nil => rfl
  | cons command rest inductionHypothesis =>
    have first := Exchange.countP_events ⟨machine, command⟩
    rw [Exchange.response] at first
    rw [reports_cons, List.countP_append, first, inductionHypothesis, exchanges,
      List.countP_cons, Nat.add_comm]

/-- A failed step halts the machine until it is reset. Whatever else the host does meanwhile, the
core of the machine stays as the failure left it, and every step repeats the fault, reports
nothing and leaves the whole machine alone. In every machine that was switched on a fault
describes the machine that it has halted. And over every history a halt is announced once for each
time that one is entered.

Each part is an induction over commands that rests on the same division: a command is a step, a
reset or passive. The first part must exclude the reset, which is the one way out of a halt. The
second holds only of machines that were switched on, since a machine could be put together with a
fault that has nothing to do with it; there each command keeps the fault true of the machine. The
third compares every exchange with what it reports. -/
theorem halted_until_reset :
    (∀ (machine : Machine) (fault : Fault) (commands : List Command),
      machine.step.result = .error fault → (∀ command ∈ commands, command ≠ .reset) →
      let frozen := machine.step.machine
      let later := frozen.after commands
      later.SameCore frozen ∧ later.status = .halted fault ∧
        later.step = { machine := later, result := .error fault, events := [] }) ∧
    (∀ (config : Config) (entropy : Entropy) (history : List Command),
      ((powerOn config entropy).after history).Described) ∧
    ∀ (machine : Machine) (history : List Command),
      (machine.reports history).countP Event.announcesHalt =
        (machine.exchanges history).countP Exchange.entersHalt := by
  refine ⟨fun machine fault commands failed unreset => ?_, fun config entropy history => ?_,
    countP_reports⟩
  · have halted := (status_step_eq_halted_iff machine fault).mpr failed
    have kept := sameCore_after_of_halted _ fault halted commands unreset
    have still := kept.status.trans halted
    exact ⟨kept, still, step_of_halted _ fault still⟩
  · have starts : (powerOn config entropy).Described := fun fault stopped => by contradiction
    exact after_induction Described described_obey _ history starts

/-- A machine that stands at a return from no call and has not made it yet. -/
def unreturning : Machine :=
  (powerOn { unknown := .halt } (Entropy.cycle #[])).after [.load [0x00, 0xEE]]

/-- What a host may try without a reset. -/
def meddling : List Command :=
  [.load [0x60, 0x01], .setKey 0xA true, .tick, .step, .setEntropy (Entropy.cycle #[7])]

/-- Another program, a key, a tick and other entropy do not bring it back, and it
announces its halt once. -/
theorem unreturning_stays_halted :
    unreturning.step.result = .error (.stack .empty) ∧
      (unreturning.step.machine.after meddling).step.result = .error (.stack .empty) ∧
      (unreturning.step.machine.after meddling).step.machine.counter = 0x200 ∧
      (unreturning.step.machine.after meddling).stack.depth = 0 ∧
      (unreturning.reports (.step :: meddling)).countP Event.announcesHalt = 1 := by
  obtain ⟨latched, described, announced⟩ := halted_until_reset
  obtain ⟨halted, counter, entered⟩ :
      unreturning.step.machine.status = .halted (.stack .empty) ∧
        unreturning.step.machine.counter = 0x200 ∧
        (unreturning.exchanges (.step :: meddling)).countP Exchange.entersHalt = 1 := by
    decide +kernel
  have failed := (status_step_eq_halted_iff _ _).mp halted
  obtain ⟨kept, still, repeated⟩ := latched unreturning _ meddling failed (by simp [meddling])
  have evidence : (unreturning.after (.step :: meddling)).Described := by
    unfold unreturning
    rw [← after_append]
    exact described _ _ _
  simp only [after_cons, obey] at evidence
  refine ⟨failed, ?_, ?_, evidence _ still, ?_⟩
  · rw [repeated]
  · rw [repeated]
    exact kept.counter.trans counter
  · rw [announced, entered]

end Machine

end Chip8
