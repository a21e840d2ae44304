import Chip8.Proofs.Machine.Exchange
import Chip8.Proofs.Machine.KeyWait
import Mathlib.Order.Bounds.Basic

/-!
# Waits of any length

A wait for a key may take any number of steps, with any ticks and any movement of
the keys between them. None of this makes the machine drift: it stands at the wait
as it stood there first, because a step without a pressed key goes back onto the
instruction, and the host reaches nothing but timers and keys.

Only the moments of the steps count. A key that is pressed and released between
two steps is never seen; the first step that sees pressed keys takes the lowest of
them, and the wait is over.
-/

namespace Chip8.Machine

/-- The machine is as another one was, but for the remembered word, the status, the timers and the
keys. The first two are what a wait sets, and the others are left to the host. -/
structure Unmoved (machine start : Machine) : Prop where
  config : machine.config = start.config
  memory : machine.memory = start.memory
  registers : machine.registers = start.registers
  index : machine.index = start.index
  counter : machine.counter = start.counter
  stack : machine.stack = start.stack
  screen : machine.screen = start.screen
  entropy : machine.entropy = start.entropy

/-- A machine that has not moved from a wait stands at it: counter and memory are the same. -/
theorem standsAtWait_of_unmoved (machine start : Machine) (register : Nat)
    (unmoved : machine.Unmoved start) (stands : start.StandsAtWait register) :
    machine.StandsAtWait register := by
  refine ⟨?_, stands.exists_register, ?_⟩
  · rw [InMemory, unmoved.counter]
    exact stands.inside
  · rw [nextWord, unmoved.memory, unmoved.counter]
    exact stands.word

/-- No key is pressed at the moment of any step of the history. Between the steps the keys may do
anything. -/
def UnpressedAtSteps (machine : Machine) (history : List Command) : Prop :=
  ∀ exchange ∈ machine.exchanges history, exchange.command = .step →
    ∀ key < Keypad.count, exchange.machine.keypad.isPressed key = false

/-- The steps of a history come first at its first command and then behind it. A concrete history
is checked by this, command by command. -/
theorem unpressedAtSteps_cons_iff (machine : Machine) (command : Command)
    (rest : List Command) :
    machine.UnpressedAtSteps (command :: rest) ↔
      (command = .step → ∀ key < Keypad.count, machine.keypad.isPressed key = false) ∧
        (machine.obey command).machine.UnpressedAtSteps rest := by
  simp only [UnpressedAtSteps, exchanges, List.forall_mem_cons]

/-- Sixteen keys that are not pressed leave nothing to store. There are no other keys that could
be pressed. -/
theorem lowestPressed_of_unpressed (keypad : Keypad)
    (unpressed : ∀ key < Keypad.count, keypad.isPressed key = false) :
    keypad.lowestPressed = none := by
  rw [Keypad.lowestPressed_eq_none_iff]
  intro key
  by_cases inside : key < Keypad.count
  · exact unpressed key inside
  · exact keypad.isPressed_outside key (Nat.not_lt.mp inside)

/-- The lowest pressed key is the least of the pressed keys, in the sense of the order. This says
it without the search through the keys. -/
theorem lowestPressed_eq_some_iff_isLeast (keypad : Keypad) (key : Nat) :
    keypad.lowestPressed = some key ↔ IsLeast {key | keypad.isPressed key = true} key := by
  rw [Keypad.lowestPressed_eq_some_iff]
  constructor
  · rintro ⟨pressed, lowest⟩
    refine ⟨pressed, fun other otherPressed => ?_⟩
    change keypad.isPressed other = true at otherPressed
    by_contra below
    rw [lowest other (Nat.not_le.mp below)] at otherPressed
    contradiction
  · rintro ⟨pressed, least⟩
    refine ⟨pressed, fun lower below => ?_⟩
    cases held : keypad.isPressed lower with
    | false => rfl
    | true => exact absurd below (Nat.not_lt.mpr (least held))

/-- A wait that finds no key pressed leaves the machine unmoved. The step is made by another
machine than the one that began to wait, which is why both are named. -/
theorem unmoved_step (machine start : Machine) (register : Nat) (active : machine.Active)
    (unmoved : machine.Unmoved start) (stands : machine.StandsAtWait register)
    (released : machine.keypad.lowestPressed = none) : machine.step.machine.Unmoved start := by
  rw [(step_of_released machine register active stands released).2]
  exact ⟨unmoved.config, unmoved.memory, unmoved.registers, unmoved.index, unmoved.counter,
    unmoved.stack, unmoved.screen, unmoved.entropy⟩

/-- The exchange leaves a waiting machine where it is: a step finds no key pressed, and anything
else reaches only timers and keys. This is the step of the induction over a history. -/
theorem waiting_response (start : Machine) (register : Nat) (stands : start.StandsAtWait register)
    (exchange : Exchange) (attending : exchange.command = .step ∨ exchange.command.isAmbient = true)
    (released : exchange.command = .step → exchange.machine.keypad.lowestPressed = none)
    (waiting : exchange.machine.Active ∧ exchange.machine.Unmoved start) :
    exchange.response.machine.Active ∧ exchange.response.machine.Unmoved start := by
  obtain ⟨machine, command⟩ := exchange
  obtain ⟨active, unmoved⟩ := waiting
  rcases attending with rfl | ambient
  · have here := standsAtWait_of_unmoved machine start register unmoved stands
    refine ⟨?_, unmoved_step machine start register active unmoved here (released rfl)⟩
    change machine.step.machine.Active
    rw [(step_of_released machine register active here (released rfl)).2]
    simp [Active]
  · obtain ⟨delay, sound, keypad, left⟩ := obey_of_ambient machine command ambient
    change (machine.obey command).machine.Active ∧ (machine.obey command).machine.Unmoved start
    rw [left]
    exact ⟨active, unmoved.config, unmoved.memory, unmoved.registers, unmoved.index,
      unmoved.counter, unmoved.stack, unmoved.screen, unmoved.entropy⟩

/-- Over every history of steps, ticks and key movements whose steps find no key pressed, the
machine waits on where it began to wait. The same is said of each moment on the way, because every
step of the history is spoken about and not only what it leads to. -/
theorem waiting_after (start : Machine) (register : Nat) (active : start.Active)
    (stands : start.StandsAtWait register) (history : List Command)
    (attending : ∀ command ∈ history, command = .step ∨ command.isAmbient = true)
    (unpressed : start.UnpressedAtSteps history) :
    (∀ exchange ∈ start.exchanges history,
        exchange.machine.Active ∧ exchange.machine.Unmoved start) ∧
      (start.after history).Active ∧ (start.after history).Unmoved start := by
  refine exchanges_induction (fun machine => machine.Active ∧ machine.Unmoved start) start history
    (fun exchange member => ?_) ⟨active, rfl, rfl, rfl, rfl, rfl, rfl, rfl, rfl⟩
  refine waiting_response start register stands exchange (attending _ ?_) fun steps =>
    lowestPressed_of_unpressed _ (unpressed exchange member steps)
  exact command_mem_of_mem_exchanges start history exchange member

/-- A machine that has waited and finds keys pressed stores the lowest of them and goes on behind
the wait. The lowest is below sixteen and so fits the register. The counter does not run over,
because the word of the wait lies in memory. -/
theorem step_of_waiting (machine start : Machine) (register : Nat) (active : machine.Active)
    (unmoved : machine.Unmoved start) (stands : start.StandsAtWait register)
    (someKey : ∃ key, machine.keypad.isPressed key = true) :
    ∃ lowest, IsLeast {key | machine.keypad.isPressed key = true} lowest ∧
      machine.step.result = .ok .quiet ∧
      (machine.step.machine.registers.read register).toNat = lowest ∧
      (∀ other < Registers.count, other ≠ register →
        machine.step.machine.registers.read other = start.registers.read other) ∧
      machine.step.machine.counter.toNat = start.counter.toNat + 2 ∧
      machine.step.machine.status = .running := by
  have here := standsAtWait_of_unmoved machine start register unmoved stands
  cases keys : machine.keypad.lowestPressed with
  | none =>
    obtain ⟨key, pressed⟩ := someKey
    rw [(machine.keypad.lowestPressed_eq_none_iff).mp keys key] at pressed
    contradiction
  | some lowest =>
    have least := (lowestPressed_eq_some_iff_isLeast machine.keypad lowest).mp keys
    obtain ⟨stored, left⟩ := step_of_pressed machine register lowest active here keys
    have small : lowest < Keypad.count := by
      by_contra outside
      have unpressed := machine.keypad.isPressed_outside lowest (Nat.not_lt.mp outside)
      exact Bool.false_ne_true (unpressed.symm.trans least.1)
    refine ⟨lowest, least, stored, ?_, fun other inside different => ?_, ?_, ?_⟩
    · rw [left, Registers.read_write, if_pos rfl, Nat.toUInt8, UInt8.toNat_ofNat']
      exact Nat.mod_eq_of_lt (Nat.lt_trans small (by decide))
    · rw [left, Registers.read_write, Nat.mod_eq_of_lt stands.exists_register,
        Nat.mod_eq_of_lt inside, if_neg (Ne.symm different), unmoved.registers]
    · have room : start.counter.toNat + 1 < 4096 := stands.inside
      rw [left]
      simp only [unmoved.counter, Flow.target, Opcode.size, Nat.toUInt16, UInt16.toNat_ofNat']
      omega
    · rw [left]

/-- From a wait on, and for as long as the steps find no key pressed, every step repeats the wait
and leaves the machine where it was, whatever ticks and key movements come between. The first step
that finds keys pressed stores the least of them in the register of the wait and goes on behind
it.

What is preserved is that the machine has not moved, which keeps it at its wait; it need not have
executed the wait before, standing at it is enough. Loads, resets and new entropy are left out of
the history, because they reach more than timers and keys. The keys are only looked at when a step
is made, so nothing is assumed about them in between. -/
theorem wait_until_pressed (start : Machine) (register : Nat) (active : start.Active)
    (stands : start.StandsAtWait register) (history : List Command)
    (attending : ∀ command ∈ history, command = .step ∨ command.isAmbient = true)
    (unpressed : start.UnpressedAtSteps history) :
    (∀ exchange ∈ start.exchanges history, exchange.command = .step →
      exchange.response.reply = .stepped (.ok .wait) ∧
        exchange.response.machine.status = .awaitingKey register ∧
        exchange.response.machine.opcode.toNat = 0xF00A + 0x100 * register ∧
        exchange.response.machine.Unmoved start) ∧
      let waiting := start.after history
      (∃ key, waiting.keypad.isPressed key = true) →
        ∃ lowest, IsLeast {key | waiting.keypad.isPressed key = true} lowest ∧
          waiting.step.result = .ok .quiet ∧
          (waiting.step.machine.registers.read register).toNat = lowest ∧
          (∀ other < Registers.count, other ≠ register →
            waiting.step.machine.registers.read other = start.registers.read other) ∧
          waiting.step.machine.counter.toNat = start.counter.toNat + 2 ∧
          waiting.step.machine.status = .running := by
  obtain ⟨given, reached, resting⟩ :=
    waiting_after start register active stands history attending unpressed
  refine ⟨fun exchange member steps => ?_, step_of_waiting _ start register reached resting stands⟩
  obtain ⟨stillActive, unmoved⟩ := given exchange member
  have released := lowestPressed_of_unpressed _ (unpressed exchange member steps)
  have here := standsAtWait_of_unmoved exchange.machine start register unmoved stands
  obtain ⟨waited, left⟩ := step_of_released _ register stillActive here released
  have behind := unmoved_step _ start register stillActive unmoved here released
  simp only [Exchange.response, steps, obey]
  refine ⟨congrArg Reply.stepped waited, ?_, ?_, behind⟩
  · rw [left]
  · rw [left]
    exact here.word

/-- A machine that has started its delay timer, counts it down itself and stands at a
wait for a key into register three. -/
def sleeper : Machine :=
  (powerOn { cadence := .instruction } (Entropy.cycle #[])).after
    [.load [0x64, 0x07, 0xF4, 0x15, 0xF3, 0x0A], .step, .step]

/-- Steps during which nothing is pressed, although key five is in between, and two
keys that are pressed at the end. -/
def restlessHours : List Command :=
  [.step, .setKey 5 true, .tick, .setKey 5 false, .setKey 16 true, .step,
    .setKeys (Keypad.ofKeys fun key => key == 12 || key == 7)]

/-- The sleeper does not see key five, and wakes up with the lower of the two keys. -/
theorem sleeper_wakes :
    sleeper.StandsAtWait 3 ∧ sleeper.UnpressedAtSteps restlessHours ∧
      (sleeper.obey .step).reply = .stepped (.ok .wait) ∧
      (sleeper.after restlessHours).keypad.isPressed 12 = true ∧
      (sleeper.after restlessHours).step.result = .ok .quiet ∧
      ((sleeper.after restlessHours).step.machine.registers.read 3).toNat = 7 ∧
      (sleeper.after restlessHours).step.machine.counter.toNat = 0x206 := by
  obtain ⟨running, counter, word, before, between, twelve, seven⟩ :
      sleeper.status = .running ∧ sleeper.counter.toNat = 0x204 ∧
        sleeper.nextWord.toNat = 0xF00A + 0x100 * 3 ∧
        (∀ key < Keypad.count, sleeper.keypad.isPressed key = false) ∧
        (∀ key < Keypad.count,
          (sleeper.after (restlessHours.take 5)).keypad.isPressed key = false) ∧
        (sleeper.after restlessHours).keypad.isPressed 12 = true ∧
        (sleeper.after restlessHours).keypad.lowestPressed = some 7 := by
    decide +kernel
  have active : sleeper.Active := by simp [Active, running]
  have inside : sleeper.InMemory := by
    rw [InMemory, counter]
    decide
  have stands : sleeper.StandsAtWait 3 := ⟨inside, by decide, word⟩
  have unpressed : sleeper.UnpressedAtSteps restlessHours := by
    simp only [restlessHours, unpressedAtSteps_cons_iff, reduceCtorEq, false_implies, true_and,
      true_implies]
    simp only [restlessHours, List.take_succ_cons, List.take_zero, after_cons, after_nil]
      at between
    exact ⟨before, between, fun exchange member => absurd member List.not_mem_nil⟩
  obtain ⟨waits, wakes⟩ := wait_until_pressed sleeper 3 active stands restlessHours
    (by simp [restlessHours, Command.isAmbient]) unpressed
  obtain ⟨lowest, least, quiet, stored, _, behind, _⟩ := wakes ⟨12, twelve⟩
  have same : lowest = 7 :=
    least.unique ((lowestPressed_eq_some_iff_isLeast _ 7).mp seven)
  have first : (⟨sleeper, .step⟩ : Exchange) ∈ sleeper.exchanges restlessHours := by
    rw [restlessHours, exchanges]
    exact List.mem_cons_self
  have waited := (waits _ first rfl).1
  simp only [Exchange.response] at waited
  exact ⟨stands, unpressed, waited, twelve, quiet, stored.trans same, by rw [behind, counter]⟩

end Chip8.Machine
