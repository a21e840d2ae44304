import Chip8.Proofs.Instruction.Encoding
import Chip8.Proofs.Machine.Transition

/-!
# Failing steps

A step of a machine that has not halted fails for one of four causes, each of
them visible before the step: where the counter stands, which word is there, what
the policy says about it and how deep the stack is. Without such a cause the step
succeeds.

A failure is no partial step. The machine keeps everything it had, with two
exceptions: its status becomes the fault, and the word that was fetched, if there
was one, is remembered.
-/

namespace Chip8

namespace Instruction

/-- A policy refuses a word exactly if it is strict and the word has no instruction in the strict
set. The refusal names the word. -/
theorem decodeUnder_eq_error_iff (policy : UnknownWords) (opcode : Opcode) (cause : OpcodeFault) :
    decodeUnder policy opcode = .error cause ↔
      policy = .halt ∧ ofOpcode? opcode = none ∧ cause = .unsupported opcode := by
  cases policy with
  | skip => simp [decodeUnder]
  | halt =>
    rw [decodeUnder_halt]
    cases ofOpcode? opcode <;> simp [eq_comm]

/-- A return has a single word, under every policy. -/
theorem decodeUnder_returnFromCall_iff (policy : UnknownWords) (opcode : Opcode) :
    decodeUnder policy opcode = .ok (some .returnFromCall) ↔ opcode = 0x00EE := by
  rw [decodeUnder_eq_ok_some_iff policy opcode .returnFromCall rfl, ← UInt16.toNat_inj]
  simp [Encodable, Fits, operands, word, eq_comm]

/-- The words of group two are the calls, and the address is their target. -/
theorem decodeUnder_call_iff (policy : UnknownWords) (opcode : Opcode) (target : Nat) :
    decodeUnder policy opcode = .ok (some (.call target)) ↔
      opcode.group = 2 ∧ target = opcode.address := by
  have recomposed := (fields_recompose opcode).1
  have below := opcode.address_lt
  rw [decodeUnder_eq_ok_some_iff policy opcode (.call target) rfl]
  simp only [Encodable, Fits, operands, List.forall_mem_singleton, Operand.Fits, word]
  constructor
  · rintro ⟨⟨fits, _⟩, written⟩
    omega
  · rintro ⟨group, same⟩
    exact ⟨⟨by omega, by simp, by simp⟩, by omega⟩

end Instruction

namespace Machine

/-- Executing fails exactly for a return without a call and for a call without room. All other
instructions succeed whatever the machine, so this is the only place where executing is asked
whether it fails. -/
theorem execute_eq_error_iff (machine : Machine) (instruction : Instruction) (cause : StackFault) :
    machine.execute instruction = .error cause ↔
      (instruction = .returnFromCall ∧ machine.stack.depth = 0 ∧ cause = .empty) ∨
        (∃ target, instruction = .call target) ∧
          machine.stack.depth = CallStack.capacity ∧ cause = .full := by
  cases instruction <;> simp only [execute]
  case returnFromCall =>
    cases popped : machine.stack.pop with
    | error refused =>
      have reason := (CallStack.pop_eq_error_iff _ _).mp popped
      simp [CallStack.depth, reason, eq_comm]
    | ok entry =>
      obtain ⟨target, stack⟩ := entry
      simp [CallStack.depth, CallStack.frames_of_pop _ _ _ popped]
  case call target =>
    split
    · next refused pushed =>
      have reason := (CallStack.push_eq_error_iff _ _ _).mp pushed
      simp [reason, eq_comm]
    · next stack pushed =>
      have room : ¬(machine.stack.depth = CallStack.capacity ∧ cause = .full) := by
        intro full
        rw [(CallStack.push_eq_error_iff _ _ _).mpr full] at pushed
        contradiction
      simp [room]
  all_goals simp

instance (machine : Machine) : Decidable machine.InMemory :=
  inferInstanceAs (Decidable (_ < _))

/-- The causes for which a step fails, each with its fault. They are told by the machine before
the step, and no two of them can be met at once. -/
inductive FailsWith (machine : Machine) : Fault → Prop where
  /-- The counter leaves no room for a word. -/
  | outOfBounds (outside : Memory.capacity ≤ machine.counter.toNat + 1) :
      FailsWith machine (.opcode (.outOfBounds machine.counter.toNat Memory.capacity))
  /-- The strict set has no such word, and nothing else is accepted. -/
  | unsupported (inside : machine.InMemory) (strict : machine.config.unknown = .halt)
      (unknown : Instruction.ofOpcode? machine.nextWord = none) :
      FailsWith machine (.opcode (.unsupported machine.nextWord))
  /-- A return without a call. -/
  | stackEmpty (inside : machine.InMemory) (returning : machine.nextWord = 0x00EE)
      (empty : machine.stack.depth = 0) : FailsWith machine (.stack .empty)
  /-- A call without room. -/
  | stackFull (inside : machine.InMemory) (calling : machine.nextWord.group = 2)
      (full : machine.stack.depth = CallStack.capacity) : FailsWith machine (.stack .full)

/-- A machine with a cause to fail does so in its next step. For each cause the conditions of one
case of a step are met, and that case has the fault. The machine must not have halted, since a
halted one repeats its old fault whatever cause it may have now. -/
theorem step_of_failsWith (machine : Machine) (active : machine.Active) (fault : Fault)
    (failing : machine.FailsWith fault) : machine.step.result = .error fault := by
  cases failing with
  | outOfBounds outside =>
    rw [step_eq_of_transition machine _ (.overran active (Nat.not_lt.mpr outside))]
    rfl
  | unsupported inside strict unknown =>
    have refused := (Instruction.decodeUnder_eq_error_iff machine.config.unknown _ _).mpr
      ⟨strict, unknown, rfl⟩
    rw [step_eq_of_transition machine _ (.refused _ active inside refused)]
    rfl
  | stackEmpty inside returning empty =>
    have decoded := (Instruction.decodeUnder_returnFromCall_iff machine.config.unknown _).mpr
      returning
    have unable := (machine.fetched.execute_eq_error_iff .returnFromCall .empty).mpr
      (.inl ⟨rfl, empty, rfl⟩)
    rw [step_eq_of_transition machine _ (.failed _ _ active inside decoded unable)]
    rfl
  | stackFull inside calling full =>
    have decoded := (Instruction.decodeUnder_call_iff machine.config.unknown _ _).mpr
      ⟨calling, rfl⟩
    have unable := (machine.fetched.execute_eq_error_iff (.call machine.nextWord.address) .full).mpr
      (.inr ⟨⟨_, rfl⟩, full, rfl⟩)
    rw [step_eq_of_transition machine _ (.failed _ _ active inside decoded unable)]
    rfl

/-- A step that failed had a cause, and it changed nothing but the status and the remembered word.
Four of the six cases of a step fail; the one of a halted machine is excluded, and of the others
each names its cause. -/
theorem failsWith_of_step (machine : Machine) (active : machine.Active) (fault : Fault)
    (broken : machine.step.result = .error fault) :
    machine.FailsWith fault ∧
      machine.step.machine =
        { machine with
          status := .halted fault
          opcode := if machine.InMemory then machine.nextWord else machine.opcode } := by
  have taken := machine.transition_step
  generalize machine.step = outcome at taken broken ⊢
  cases taken with
  | halted fault stopped => exact absurd stopped (active fault)
  | overran _ outside =>
    cases broken
    exact ⟨.outOfBounds (Nat.not_lt.mp outside), by simp [fail, outside]⟩
  | refused cause _ inside unknown =>
    cases broken
    obtain ⟨strict, absent, rfl⟩ := (Instruction.decodeUnder_eq_error_iff _ _ _).mp unknown
    exact ⟨.unsupported inside strict absent, by simp [fail, fetched, inside]⟩
  | skipped _ inside unknown => contradiction
  | failed instruction cause _ inside decoded unable =>
    cases broken
    refine ⟨?_, by simp [fail, fetched, inside]⟩
    rcases (execute_eq_error_iff _ _ _).mp unable with
      ⟨rfl, empty, rfl⟩ | ⟨⟨target, rfl⟩, full, rfl⟩
    · exact .stackEmpty inside ((Instruction.decodeUnder_returnFromCall_iff _ _).mp decoded) empty
    · exact .stackFull inside ((Instruction.decodeUnder_call_iff _ _ _).mp decoded).1 full
  | executed instruction effect _ inside decoded done => contradiction

/-- A machine that has not halted fails exactly for its causes to fail, and a failure leaves
everything but the status and the remembered word as it was. Both directions go through the cases
of a step: a cause meets the conditions of its case, and a case that fails has one of the causes
as its condition. The hypothesis leaves out halted machines, which fail without a cause of their
own. -/
theorem step_fails_iff (machine : Machine) (active : machine.Active) :
    (∀ fault, machine.step.result = .error fault ↔ machine.FailsWith fault) ∧
      ∀ fault, machine.step.result = .error fault →
        machine.step.machine =
          { machine with
            status := .halted fault
            opcode := if machine.InMemory then machine.nextWord else machine.opcode } := by
  refine ⟨fun fault => ⟨?_, ?_⟩, ?_⟩
  · intro broken
    exact (failsWith_of_step machine active fault broken).1
  · exact step_of_failsWith machine active fault
  · intro fault broken
    exact (failsWith_of_step machine active fault broken).2

/-- No instruction halts the machine that executes it. A fault comes from the step, never from an
effect. -/
theorem active_of_execute (machine : Machine) (instruction : Instruction) (effect : Effect)
    (active : machine.Active) (executed : machine.execute instruction = .ok effect) :
    effect.machine.Active := by
  intro fault
  cases waits : instruction.awaitsKey with
  | false =>
    rw [((confined_of_execute machine instruction effect executed).status waits).1]
    exact active fault
  | true =>
    cases instruction <;> simp only [Instruction.awaitsKey, Bool.false_eq_true] at waits
    case awaitKey x =>
      cases executed
      unfold awaitKey
      split <;> simp

/-- A step leaves the machine halted by exactly the fault that it answers with. So the answer of a
step and the status behind it never tell different stories. -/
theorem status_step_eq_halted_iff (machine : Machine) (fault : Fault) :
    machine.step.machine.status = .halted fault ↔ machine.step.result = .error fault := by
  have taken := machine.transition_step
  generalize machine.step = outcome at taken ⊢
  cases taken with
  | halted held stopped => simp [stopped]
  | overran active outside => simp [fail]
  | refused cause active inside unknown => simp [fail]
  | skipped active inside unknown =>
    rw [Effect.machine_complete]
    simp only [Effect.complete, reduceCtorEq, iff_false]
    exact active fault
  | failed instruction cause active inside decoded unable => simp [fail]
  | executed instruction effect active inside decoded done =>
    rw [Effect.machine_complete]
    simp only [Effect.complete, reduceCtorEq, iff_false]
    exact active_of_execute machine.fetched _ _ active done fault

/-- A machine with sixteen calls in progress and one more call at the very end of
its memory, with a timer that the machine itself would count down. -/
def deepCaller : Machine :=
  { powerOn { cadence := .instruction, unknown := .halt } (Entropy.cycle #[]) with
    memory := Memory.zero.writeBlock 0xFFE [0x23, 0x45]
    counter := 0xFFE
    stack := ⟨List.replicate 16 0x300, by decide⟩
    delay := ⟨7⟩ }

/-- The seventeenth call fails, and not even the timer notices. -/
theorem step_deepCaller :
    deepCaller.Active ∧ deepCaller.step.result = .error (.stack .full) ∧
      deepCaller.step.machine =
        { deepCaller with status := .halted (.stack .full), opcode := 0x2345 } := by
  have active : deepCaller.Active := by simp [Active, deepCaller, powerOn]
  have inside : deepCaller.InMemory := by decide
  have word : deepCaller.nextWord = 0x2345 := by decide +kernel
  obtain ⟨causes, kept⟩ := step_fails_iff deepCaller active
  have broken := (causes (.stack .full)).mpr (.stackFull inside (by rw [word]; decide) (by decide))
  refine ⟨active, broken, ?_⟩
  rw [kept _ broken, if_pos inside, word]

end Machine

end Chip8
