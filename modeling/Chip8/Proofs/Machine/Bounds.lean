import Chip8.Proofs.Instruction.Encoding
import Chip8.Proofs.Machine.Transition

/-!
# Bounds of a machine

Whatever its host asks of it, a machine that was switched on keeps its counter
at most two hundred and fifty-five places behind the last address operand, its
return addresses between the word at address zero and the end of memory, and
waits only for registers that exist.

The counter alone is no invariant: a return continues wherever a call said, so
the addresses on the stack have to be bounded with it. They are, because a call
is executed inside memory and its return address is two places further.
-/

namespace Chip8.Machine

/-- The highest place that a jump with an offset reaches: the last address operand and a byte. -/
abbrev highestCounter : Nat := 0x10FE

/-- The bounds of a machine. They are what the accesses of a step need, and enough of the stack
for the counter to stay in them behind a return. -/
structure InBounds (machine : Machine) : Prop where
  counter : machine.counter.toNat ≤ highestCounter
  depth : machine.stack.depth ≤ CallStack.capacity
  /-- A return continues behind a call that was inside memory. -/
  frames : ∀ address ∈ machine.stack.frames,
    Opcode.size ≤ address.toNat ∧ address.toNat ≤ Memory.capacity
  register : ∀ register, machine.status = .awaitingKey register → register < Registers.count

/-- A machine starts in bounds: at the program start, without calls, and running. -/
theorem inBounds_powerOn (config : Config) (entropy : Entropy) :
    (powerOn config entropy).InBounds where
  counter := by
    change Memory.programStart.toUInt16.toNat ≤ highestCounter
    decide
  depth := CallStack.bounded _
  frames := by simp [powerOn, CallStack.empty]
  register := by simp [powerOn]

/-- A fetch stays in bounds, as it changes only the remembered word. -/
theorem inBounds_fetched (machine : Machine) (bounded : machine.InBounds) :
    machine.fetched.InBounds where
  counter := bounded.counter
  depth := bounded.depth
  frames := bounded.frames
  register := bounded.register

/-- Executing adds no other return address than the one behind the instruction. A return takes one
away, and every other instruction leaves the stack. -/
theorem mem_frames_of_execute (machine : Machine) (instruction : Instruction) (effect : Effect)
    (executed : machine.execute instruction = .ok effect) (address : UInt16)
    (returning : address ∈ effect.machine.stack.frames) :
    address ∈ machine.stack.frames ∨
      address = (Flow.next.target machine.counter.toNat).toUInt16 := by
  by_cases moves : instruction.movesStack = true
  · cases instruction <;> simp only [Instruction.movesStack, Bool.false_eq_true] at moves
    case returnFromCall =>
      simp only [execute] at executed
      split at executed
      · contradiction
      · next target stack popped =>
        cases executed
        rw [CallStack.frames_of_pop _ _ _ popped]
        exact .inl (List.mem_cons_of_mem _ returning)
    case call target =>
      simp only [execute] at executed
      split at executed
      · contradiction
      · next stack pushed =>
        cases executed
        rw [CallStack.frames_of_push _ _ _ pushed, List.mem_cons] at returning
        exact returning.symm
  · have confined := confined_of_execute machine instruction effect executed
    rw [confined.stack (by simpa using moves)] at returning
    exact .inl returning

/-- An instruction that is executed inside memory continues in bounds. An address operand fits
into twelve bits and an offset into a byte; a return goes where the bounds of the stack say; all
others move on from inside memory by a few places. So each of the hypotheses has its instructions.
-/
theorem target_of_execute_le (machine : Machine) (instruction : Instruction) (effect : Effect)
    (inside : machine.InMemory) (fits : instruction.Fits) (bounded : machine.InBounds)
    (executed : machine.execute instruction = .ok effect) :
    effect.flow.target machine.counter.toNat ≤ highestCounter := by
  have room : machine.counter.toNat + 1 < 4096 := inside
  cases instruction <;> simp only [execute] at executed
  case returnFromCall =>
    split at executed
    · contradiction
    · next target stack popped =>
      cases executed
      have framed := bounded.frames target (by simp [CallStack.frames_of_pop _ _ _ popped])
      simp only [Memory.capacity, Flow.target, highestCounter] at framed ⊢
      omega
  case call target =>
    split at executed
    · contradiction
    · cases executed
      simp only [Instruction.Fits, Instruction.operands, List.forall_mem_cons,
        Operand.Fits] at fits
      simp only [Flow.target, highestCounter]
      omega
  case jump target =>
    cases executed
    simp only [Instruction.Fits, Instruction.operands, List.forall_mem_cons, Operand.Fits] at fits
    simp only [Flow.target, highestCounter]
    omega
  case jumpWithOffset base =>
    cases executed
    have offset := (machine.registers.read 0).toNat_lt
    simp only [Instruction.Fits, Instruction.operands, List.forall_mem_cons, Operand.Fits] at fits
    simp only [Flow.target, highestCounter]
    omega
  case awaitKey x =>
    cases executed
    unfold awaitKey
    split <;> simp only [Flow.target, Opcode.size, highestCounter] <;> omega
  case skipIfValue | skipUnlessValue | skipIfSame | skipIfDifferent | skipIfPressed |
      skipUnlessPressed =>
    cases executed
    dsimp only
    rw [Flow.target_skipIf, highestCounter, Opcode.size]
    split <;> omega
  all_goals
    cases executed
    simp only [Flow.target, Opcode.size, highestCounter]
    omega

/-- A wait that an instruction begins is for a register that exists, because its operand fits. A
wait that was there before is in bounds already. -/
theorem register_of_execute (machine : Machine) (instruction : Instruction) (effect : Effect)
    (fits : instruction.Fits) (bounded : machine.InBounds)
    (executed : machine.execute instruction = .ok effect) (register : Nat)
    (awaiting : effect.machine.status = .awaitingKey register) :
    register < Registers.count := by
  by_cases waits : instruction.awaitsKey = true
  · cases instruction <;> simp only [Instruction.awaitsKey, Bool.false_eq_true] at waits
    case awaitKey x =>
      cases executed
      unfold awaitKey at awaiting
      split at awaiting
      · contradiction
      · cases awaiting
        simpa [Instruction.Fits, Instruction.operands, Operand.Fits] using fits
  · have confined := confined_of_execute machine instruction effect executed
    rw [(confined.status (by simpa using waits)).1] at awaiting
    exact bounded.register register awaiting

/-- A failed step stays in bounds: it changes the status to a fault, and a fault awaits no
register. -/
theorem inBounds_fail (machine : Machine) (fault : Fault) (events : List Event)
    (bounded : machine.InBounds) : (machine.fail fault events).machine.InBounds where
  counter := bounded.counter
  depth := bounded.depth
  frames := bounded.frames
  register := by simp [fail]

/-- A step stays in bounds. Only where a word is passed over or executed is there something to
show; that it was fetched inside memory bounds the new counter and the return address of a call.
-/
theorem inBounds_step (machine : Machine) (bounded : machine.InBounds) :
    machine.step.machine.InBounds := by
  have fetchedBounded := inBounds_fetched machine bounded
  have taken := machine.transition_step
  generalize machine.step = outcome at taken ⊢
  cases taken with
  | halted fault stopped => exact bounded
  | overran active outside => exact inBounds_fail _ _ _ bounded
  | refused cause active inside unknown => exact inBounds_fail _ _ _ fetchedBounded
  | failed instruction cause active inside decoded unable =>
    exact inBounds_fail _ _ _ fetchedBounded
  | skipped active inside unknown =>
    rw [Effect.machine_complete]
    refine ⟨?_, bounded.depth, bounded.frames, bounded.register⟩
    have room : machine.counter.toNat + 1 < 4096 := inside
    simp only [fetched, Flow.target, Opcode.size, highestCounter, Nat.toUInt16,
      UInt16.toNat_ofNat']
    omega
  | executed instruction effect active inside decoded done =>
    have fits := Instruction.fits_of_decodeUnder _ _ _ decoded
    have confined := confined_of_execute _ _ _ done
    have target := target_of_execute_le machine.fetched instruction effect inside fits
      fetchedBounded done
    rw [Effect.machine_complete]
    refine ⟨?_, effect.machine.stack.bounded, ?_, ?_⟩
    · simp only [confined.counter, Nat.toUInt16, UInt16.toNat_ofNat']
      exact Nat.le_trans (Nat.mod_le _ _) target
    · intro address returning
      rcases mem_frames_of_execute _ _ _ done address returning with before | behind
      · exact bounded.frames address before
      · have room : machine.counter.toNat + 1 < 4096 := inside
        rw [behind]
        simp only [fetched, Flow.target, Opcode.size, Memory.capacity, Nat.toUInt16,
          UInt16.toNat_ofNat']
        omega
    · exact register_of_execute _ _ _ fits fetchedBounded done

/-- A command stays in bounds. What a passive one may change has no bounds, and a reset starts
over. -/
theorem inBounds_obey (machine : Machine) (command : Command) (bounded : machine.InBounds) :
    (machine.obey command).machine.InBounds := by
  by_cases passive : command.isPassive = true
  · have same := sameCore_obey machine command passive
    constructor
    · rw [same.counter]
      exact bounded.counter
    · exact CallStack.bounded _
    · rw [same.stack]
      exact bounded.frames
    · rw [same.status]
      exact bounded.register
  · cases command <;> simp only [Command.isPassive, not_true_eq_false] at passive
    case step => exact inBounds_step machine bounded
    case reset => exact inBounds_powerOn machine.config machine.entropy

/-- Every history stays in bounds. -/
theorem inBounds_after (machine : Machine) (commands : List Command)
    (bounded : machine.InBounds) : (machine.after commands).InBounds :=
  after_induction InBounds inBounds_obey machine commands bounded

end Chip8.Machine
