import Chip8.Machine.Command
import Chip8.Proofs.Machine.Execution

/-!
# Transitions

A step by its cases: which of them applies is decided by the status, by the place
of the program counter, by the word there and by the stack, and each case says
the whole outcome. The cases are exactly the outcomes of a step, so a law about
steps is a law about six cases and never looks at how a step is computed.

A host that neither steps nor resets a machine reaches its memory, its timers,
its keys and its entropy. Everything else is the machine's core, which such a
host leaves alone.
-/

namespace Chip8

namespace Machine

/-- The machine has not halted: whatever its status, it is no fault. -/
def Active (machine : Machine) : Prop := ∀ fault, machine.status ≠ .halted fault

/-- What is not active has halted, and there is a fault that it repeats. -/
theorem halted_of_not_active (machine : Machine) (stopped : ¬machine.Active) :
    ∃ fault, machine.status = .halted fault := by
  cases status : machine.status with
  | halted fault => exact ⟨fault, rfl⟩
  | running => exact absurd (by simp [Active, status]) stopped
  | awaitingKey register => exact absurd (by simp [Active, status]) stopped

/-- The word at the program counter, wrapped at the end of memory. It is told without asking
whether the word can be fetched, so it is there in every case of a step. -/
def nextWord (machine : Machine) : Opcode :=
  Opcode.ofBytes (machine.memory.read machine.counter.toNat)
    (machine.memory.read (machine.counter.toNat + 1))

/-- The word at the program counter does not wrap, so it can be fetched. The second byte decides.
-/
def InMemory (machine : Machine) : Prop := machine.counter.toNat + 1 < Memory.capacity

/-- The machine behind the fetch of its next word. Nothing but the remembered word is different.
-/
def fetched (machine : Machine) : Machine := { machine with opcode := machine.nextWord }

/-- A fetch inside memory gives the word at the counter. There both ways to read a byte agree, by
its index and by its wrapped address. -/
theorem fetch_of_inMemory (machine : Machine) (inside : machine.InMemory) :
    Opcode.fetch machine.memory.bytes machine.counter.toNat = .ok machine.nextWord := by
  have stored : machine.counter.toNat + 1 < machine.memory.bytes.size := by
    rw [Memory.size_bytes]
    exact inside
  rw [Opcode.fetch_inside _ _ stored, Memory.getElem_bytes, Memory.getElem_bytes, nextWord]

/-- A fetch outside of memory is refused, and the refusal names the counter and the size of
memory. -/
theorem fetch_of_not_inMemory (machine : Machine) (outside : ¬machine.InMemory) :
    Opcode.fetch machine.memory.bytes machine.counter.toNat =
      .error (.outOfBounds machine.counter.toNat Memory.capacity) := by
  have beyond : machine.memory.bytes.size ≤ machine.counter.toNat + 1 := by
    rw [Memory.size_bytes]
    exact Nat.not_lt.mp outside
  rw [Opcode.fetch_outside _ _ beyond, Memory.size_bytes]

/-- What a step leads to, by everything that decides it. The conditions exclude each other, and
each case has the whole outcome: the machine, the answer and what is reported. -/
inductive Transition (machine : Machine) : Outcome → Prop where
  /-- A halted machine repeats its fault. -/
  | halted (fault : Fault) (stopped : machine.status = .halted fault) :
      Transition machine { machine, result := .error fault, events := [] }
  /-- The counter stands outside of memory. -/
  | overran (active : machine.Active) (outside : ¬machine.InMemory) :
      Transition machine
        (machine.fail (.opcode (.outOfBounds machine.counter.toNat Memory.capacity)) [])
  /-- The word has no instruction, and the policy makes this a fault. -/
  | refused (cause : OpcodeFault) (active : machine.Active) (inside : machine.InMemory)
      (unknown : Instruction.decodeUnder machine.config.unknown machine.nextWord = .error cause) :
      Transition machine (machine.fetched.fail (.opcode cause) [])
  /-- The word has no instruction, and the policy passes over it. -/
  | skipped (active : machine.Active) (inside : machine.InMemory)
      (unknown : Instruction.decodeUnder machine.config.unknown machine.nextWord = .ok none) :
      Transition machine
        (Effect.complete { machine := machine.fetched }
          [.skippedOpcode machine.nextWord machine.counter])
  /-- The stack cannot follow the instruction. -/
  | failed (instruction : Instruction) (cause : StackFault) (active : machine.Active)
      (inside : machine.InMemory)
      (decoded : Instruction.decodeUnder machine.config.unknown machine.nextWord =
        .ok (some instruction))
      (unable : machine.fetched.execute instruction = .error cause) :
      Transition machine
        (machine.fetched.fail (.stack cause)
          [.executing machine.counter machine.nextWord instruction])
  /-- The instruction has its effect. -/
  | executed (instruction : Instruction) (effect : Effect) (active : machine.Active)
      (inside : machine.InMemory)
      (decoded : Instruction.decodeUnder machine.config.unknown machine.nextWord =
        .ok (some instruction))
      (done : machine.fetched.execute instruction = .ok effect) :
      Transition machine
        (effect.complete [.executing machine.counter machine.nextWord instruction])

/-- A step inside memory dispatches the word at the counter. What remains is to decode and to
execute it. -/
theorem step_of_inMemory (machine : Machine) (active : machine.Active)
    (inside : machine.InMemory) : machine.step = machine.fetched.dispatch := by
  rw [step_of_not_halted machine active, attempt, fetch_of_inMemory machine inside]
  rfl

/-- A step of a machine that has not halted is a transition. The cases are found in the order in
which the step decides: where the counter stands, what the word means, and whether the stack can
follow. -/
theorem transition_of_active (machine : Machine) (active : machine.Active) :
    Transition machine machine.step := by
  by_cases inside : machine.InMemory
  · rw [step_of_inMemory machine active inside]
    unfold dispatch
    split
    · next cause unknown => exact .refused cause active inside unknown
    · next unknown => exact .skipped active inside unknown
    · next instruction decoded =>
      dsimp only
      split
      · next cause unable => exact .failed instruction cause active inside decoded unable
      · next effect done => exact .executed instruction effect active inside decoded done
  · rw [step_of_not_halted machine active, attempt, fetch_of_not_inMemory machine inside]
    exact .overran active inside

/-- Every step is a transition. With this, a law about steps is proved by its six cases. -/
theorem transition_step (machine : Machine) : Transition machine machine.step := by
  by_cases active : machine.Active
  · exact transition_of_active machine active
  · obtain ⟨fault, stopped⟩ := halted_of_not_active machine active
    rw [step_of_halted machine fault stopped]
    exact .halted fault stopped

/-- No outcome but that of the step is a transition. So a machine of which the conditions of a
case are known has the outcome of that case, without evaluating its step. -/
theorem step_eq_of_transition (machine : Machine) (outcome : Outcome)
    (taken : Transition machine outcome) : machine.step = outcome := by
  cases taken with
  | halted fault stopped => exact step_of_halted machine fault stopped
  | overran active outside =>
    rw [step_of_not_halted machine active, attempt, fetch_of_not_inMemory machine outside]
  | refused cause active inside unknown =>
    have meaning : machine.fetched.decoded = .error cause := unknown
    rw [step_of_inMemory machine active inside, dispatch, meaning]
  | skipped active inside unknown =>
    have meaning : machine.fetched.decoded = .ok none := unknown
    rw [step_of_inMemory machine active inside, dispatch, meaning]
    rfl
  | failed instruction cause active inside known unable =>
    have meaning : machine.fetched.decoded = .ok (some instruction) := known
    rw [step_of_inMemory machine active inside, dispatch, meaning]
    dsimp only
    rw [unable]
    rfl
  | executed instruction effect active inside known done =>
    have meaning : machine.fetched.decoded = .ok (some instruction) := known
    rw [step_of_inMemory machine active inside, dispatch, meaning]
    dsimp only
    rw [done]
    rfl

end Machine

/-- What counting down behind a successful step makes of a timer. Under the host cadence a step
leaves it. -/
def Cadence.countDown : Cadence → Countdown → Countdown
  | .host, timer => timer
  | .instruction, timer => timer.tick

/-- A completed effect moves the counter and, under the instruction cadence, the timers. Every
other component is the one that the effect has left. -/
theorem Effect.machine_complete (effect : Effect) (events : List Event) :
    (effect.complete events).machine =
      { effect.machine with
        counter := (effect.flow.target effect.machine.counter.toNat).toUInt16
        delay := effect.machine.config.cadence.countDown effect.machine.delay
        sound := effect.machine.config.cadence.countDown effect.machine.sound } := by
  unfold complete
  dsimp only
  split <;> next cadence => rw [cadence]; rfl

/-- The host's request leaves the core of a machine alone. Only a step and a reset do more. -/
def Command.isPassive : Command → Bool
  | .step => false
  | .reset => false
  | _ => true

/-- The host's request counts the timers down or moves the keys. These are the senses of a
machine, as opposed to its memory and its entropy. -/
def Command.isAmbient : Command → Bool
  | .tick => true
  | .setKey _ _ => true
  | .setKeys _ => true
  | _ => false

/-- Every request steps the machine, resets it or leaves its core alone. Laws of histories are
proved by these three cases, so a further passive request would add nothing to them. -/
theorem Command.step_or_reset_or_passive (command : Command) :
    command = .step ∨ command = .reset ∨ command.isPassive = true := by
  cases command <;> simp [isPassive]

namespace Machine

/-- Two machines agree in everything that only a step or a reset changes. Memory, timers, keys and
entropy are left open, because a host reaches them. -/
structure SameCore (machine other : Machine) : Prop where
  config : machine.config = other.config
  opcode : machine.opcode = other.opcode
  registers : machine.registers = other.registers
  index : machine.index = other.index
  counter : machine.counter = other.counter
  stack : machine.stack = other.stack
  screen : machine.screen = other.screen
  status : machine.status = other.status

/-- A passive request keeps the core. Loading and setting a key may be refused, and then they
change nothing at all. -/
theorem sameCore_obey (machine : Machine) (command : Command)
    (passive : command.isPassive = true) : (machine.obey command).machine.SameCore machine := by
  cases command with
  | step => contradiction
  | reset => contradiction
  | load program =>
    unfold obey load
    dsimp only
    split
    · next loaded placed =>
      split at placed
      · cases placed
        constructor <;> rfl
      · contradiction
    · constructor <;> rfl
  | setKey key pressed =>
    unfold obey setKey
    dsimp only
    split
    · next changed accepted =>
      split at accepted
      · cases accepted
        constructor <;> rfl
      · contradiction
    · constructor <;> rfl
  | tick => constructor <;> rfl
  | setKeys keypad => constructor <;> rfl
  | setEntropy entropy => constructor <;> rfl

/-- An ambient request changes at most the timers and the keys. A refused key leaves them, which
is a case of this too. -/
theorem obey_of_ambient (machine : Machine) (command : Command)
    (ambient : command.isAmbient = true) :
    ∃ delay sound keypad,
      (machine.obey command).machine = { machine with delay, sound, keypad } := by
  cases command <;> simp only [Command.isAmbient, Bool.false_eq_true] at ambient
  case setKey key pressed =>
    unfold obey setKey
    dsimp only
    cases machine.keypad.set key pressed with
    | ok keypad => exact ⟨_, _, keypad, rfl⟩
    | error fault => exact ⟨_, _, _, rfl⟩
  case tick => exact ⟨_, _, _, rfl⟩
  case setKeys keypad => exact ⟨_, _, keypad, rfl⟩

/-- A step keeps the configuration. It is the first law that is proved by the cases of a step. -/
theorem config_step (machine : Machine) : machine.step.machine.config = machine.config := by
  have taken := machine.transition_step
  generalize machine.step = outcome at taken ⊢
  cases taken with
  | halted fault stopped => rfl
  | overran active outside => rfl
  | refused cause active inside unknown => rfl
  | skipped active inside unknown =>
    rw [Effect.machine_complete]
    rfl
  | failed instruction cause active inside decoded unable => rfl
  | executed instruction effect active inside decoded done =>
    rw [Effect.machine_complete]
    exact (confined_of_execute _ _ _ done).config

/-- Every command keeps the configuration; there is none to change it. -/
theorem config_obey (machine : Machine) (command : Command) :
    (machine.obey command).machine.config = machine.config := by
  rcases command.step_or_reset_or_passive with rfl | rfl | passive
  · exact config_step machine
  · rfl
  · exact (sameCore_obey machine command passive).config

/-- What holds of a machine and survives every command holds behind every history. All invariants
of machines are carried by this one induction. -/
theorem after_induction (Invariant : Machine → Prop)
    (kept : ∀ machine command, Invariant machine → Invariant (machine.obey command).machine)
    (machine : Machine) (commands : List Command) (holds : Invariant machine) :
    Invariant (machine.after commands) := by
  induction commands generalizing machine with
  | nil => exact holds
  | cons command rest inductionHypothesis =>
    exact inductionHypothesis _ (kept machine command holds)

/-- Every history keeps the configuration. -/
theorem config_after (machine : Machine) (commands : List Command) :
    (machine.after commands).config = machine.config :=
  after_induction (fun reached => reached.config = machine.config)
    (fun reached command same => (config_obey reached command).trans same) machine commands rfl

end Machine

end Chip8
