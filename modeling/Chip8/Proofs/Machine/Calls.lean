import Chip8.Proofs.Machine.Exchange
import Chip8.Proofs.Machine.Failure
import Mathlib.Data.List.DropRight
import Mathlib.Data.List.Infix

/-!
# Calls and returns

Between a call and the return that matches it anything may happen, further calls, a
program that rewrites itself and requests of the host included. The stack itself
keeps them together: a step pushes one address, pops one or leaves the stack alone,
so as long as the stack stays deeper than it was before the call, the addresses up
to the one that the call pushed cannot be reached. The step that first leaves the
stack no deeper is a return to that very address.

Counted from a reset on, the calls in progress are the calls that were made less the
returns.
-/

namespace Chip8

namespace Machine

/-- The next step makes a call, and succeeds. A call on a full stack is none. -/
def entersCall (machine : Machine) : Bool :=
  machine.step.result.isOk && machine.nextWord.group == 2

/-- The next step returns from a call, and succeeds. A return without a call is none. -/
def leavesCall (machine : Machine) : Bool :=
  machine.step.result.isOk && machine.nextWord == 0x00EE

/-- What the next step makes of the stack. The three cases are exclusive, and a step that fails is
in the last one. -/
inductive MovesStack (machine : Machine) : Prop where
  /-- A call pushes the address behind it. -/
  | enters (entering : machine.entersCall = true) (staying : machine.leavesCall = false)
      (pushed : machine.step.machine.stack.frames =
        (machine.counter + 2) :: machine.stack.frames)
  /-- A return pops the address that it goes on at. -/
  | leaves (staying : machine.entersCall = false) (leaving : machine.leavesCall = true)
      (popped : machine.stack.frames =
        machine.step.machine.counter :: machine.step.machine.stack.frames)
  /-- Whatever else happens keeps the stack. -/
  | keeps (notEntering : machine.entersCall = false) (notLeaving : machine.leavesCall = false)
      (kept : machine.step.machine.stack = machine.stack)

/-- A step that fails keeps the stack, the failing call or return included. -/
theorem stack_step_of_error (machine : Machine) (fault : Fault)
    (failed : machine.step.result = .error fault) :
    machine.step.machine.stack = machine.stack := by
  by_cases active : machine.Active
  · rw [(failsWith_of_step machine active fault failed).2]
  · obtain ⟨held, stopped⟩ := halted_of_not_active machine active
    rw [step_of_halted machine held stopped]

/-- A word that does not decode to a call or a return is no word of theirs. So a step that does
something else is recognised as such by its word. -/
theorem notCall_of_decodeUnder (policy : UnknownWords) (opcode : Opcode)
    (decoded : Option Instruction)
    (found : Instruction.decodeUnder policy opcode = .ok decoded)
    (other : ∀ instruction ∈ decoded, instruction.movesStack = false) :
    opcode.group ≠ 2 ∧ opcode ≠ 0x00EE := by
  refine ⟨fun calls => ?_, fun returns => ?_⟩
  · rw [(Instruction.decodeUnder_call_iff policy opcode _).mpr ⟨calls, rfl⟩] at found
    cases found
    simp [Instruction.movesStack] at other
  · rw [(Instruction.decodeUnder_returnFromCall_iff policy opcode).mpr returns] at found
    cases found
    simp [Instruction.movesStack] at other

/-- A call pushes the address behind it. The counter still stands at the call when it is executed.
-/
theorem frames_of_execute_call (machine : Machine) (target : Nat) (effect : Effect)
    (done : machine.execute (.call target) = .ok effect) :
    effect.machine.stack.frames = (machine.counter + 2) :: machine.stack.frames := by
  simp only [execute] at done
  split at done
  · contradiction
  · next stack pushed =>
    cases done
    rw [CallStack.frames_of_push _ _ _ pushed, Flow.toUInt16_target_next]

/-- A return pops the address that it goes on at. -/
theorem frames_of_execute_return (machine : Machine) (effect : Effect) (address : Nat)
    (done : machine.execute .returnFromCall = .ok effect) :
    machine.stack.frames =
      (effect.flow.target address).toUInt16 :: effect.machine.stack.frames := by
  simp only [execute] at done
  split at done
  · contradiction
  · next target stack popped =>
    cases done
    rw [CallStack.frames_of_pop _ _ _ popped]
    simp [Flow.target]

/-- A step moves the stack by at most one address. A step that fails keeps it; one that succeeds
has an effect, and which instruction the effect belongs to decides among the three cases. -/
theorem movesStack (machine : Machine) : machine.MovesStack := by
  cases result : machine.step.result with
  | error fault =>
    have failed : machine.step.result.isOk = false := by rw [result]; rfl
    exact .keeps (by simp [entersCall, failed]) (by simp [leavesCall, failed])
      (stack_step_of_error machine fault result)
  | ok signal =>
    have succeeded : machine.step.result.isOk = true := by rw [result]; rfl
    have taken := machine.transition_step
    generalize outcome : machine.step = stepped at taken
    rw [outcome] at result
    cases taken with
    | halted fault stopped => contradiction
    | overran active outside => contradiction
    | refused cause active inside unknown => contradiction
    | failed instruction cause active inside decoded unable => contradiction
    | skipped active inside unknown =>
      obtain ⟨notCall, notReturn⟩ := notCall_of_decodeUnder _ _ _ unknown (by simp)
      refine .keeps (by simp [entersCall, notCall]) (by simp [leavesCall, notReturn]) ?_
      rw [outcome, Effect.machine_complete]
      rfl
    | executed instruction effect active inside decoded done =>
      cases moves : instruction.movesStack with
      | false =>
        obtain ⟨notCall, notReturn⟩ :=
          notCall_of_decodeUnder _ _ _ decoded (by simpa using moves)
        refine .keeps (by simp [entersCall, notCall]) (by simp [leavesCall, notReturn]) ?_
        rw [outcome, Effect.machine_complete]
        exact (confined_of_execute _ _ _ done).stack moves
      | true =>
        cases instruction <;> simp only [Instruction.movesStack, Bool.false_eq_true] at moves
        case call target =>
          have calling := ((Instruction.decodeUnder_call_iff _ _ _).mp decoded).1
          have notReturn : machine.nextWord ≠ 0x00EE := fun returns => by
            rw [returns] at calling
            contradiction
          refine .enters (by simp [entersCall, succeeded, calling])
            (by simp [leavesCall, notReturn]) ?_
          rw [outcome, Effect.machine_complete]
          exact frames_of_execute_call machine.fetched _ _ done
        case returnFromCall =>
          have returning := (Instruction.decodeUnder_returnFromCall_iff _ _).mp decoded
          have notCall : machine.nextWord.group ≠ 2 := by
            rw [returning]
            decide
          refine .leaves (by simp [entersCall, notCall])
            (by simp [leavesCall, succeeded, returning]) ?_
          rw [outcome, Effect.machine_complete]
          exact frames_of_execute_return machine.fetched _ _ done

/-- A step makes the stack deeper by a call that it makes, and less deep by a call that it leaves.
The equation is written without subtraction. -/
theorem depth_step (machine : Machine) :
    machine.step.machine.stack.depth + (if machine.leavesCall then 1 else 0) =
      machine.stack.depth + (if machine.entersCall then 1 else 0) := by
  simp only [CallStack.depth]
  cases machine.movesStack with
  | enters entering staying pushed => simp [entering, staying, pushed]
  | leaves staying leaving popped => simp [staying, leaving, popped]
  | keeps notEntering notLeaving kept => simp [notEntering, notLeaving, kept]

/-- No request of the host but a reset moves the stack. -/
theorem stack_obey (machine : Machine) (command : Command) (unreset : command ≠ .reset)
    (other : command ≠ .step) : (machine.obey command).machine.stack = machine.stack := by
  rcases command.step_or_reset_or_passive with rfl | rfl | passive
  · contradiction
  · contradiction
  · exact (sameCore_obey machine command passive).stack

/-- Addresses at the bottom of the stack stay there while the stack holds at least as many. A
return can reach them only when nothing else is left above them, and then it makes the stack less
deep than they are. -/
theorem suffix_step (machine : Machine) (base : List UInt16)
    (held : base <:+ machine.stack.frames)
    (deep : base.length ≤ machine.step.machine.stack.depth) :
    base <:+ machine.step.machine.stack.frames := by
  cases machine.movesStack with
  | enters _ _ pushed =>
    rw [pushed]
    exact held.trans (List.suffix_cons _ _)
  | leaves _ _ popped =>
    rw [popped] at held
    -- The popped address belongs to the base only if the base is the whole stack.
    rcases List.suffix_cons_iff.mp held with whole | behind
    · have length := congrArg List.length whole
      rw [List.length_cons] at length
      simp only [CallStack.depth] at deep
      omega
    · exact behind
  | keeps _ _ kept =>
    rw [kept]
    exact held

/-- Addresses at the bottom of the stack stay there over every history without a reset during
which the stack holds at least as many. That it does so is asked behind every stretch of the
history; asking it at the end would not be enough, since the stack could have been emptied and
filled in between. -/
theorem suffix_after (machine : Machine) (base : List UInt16) (history : List Command)
    (unreset : ∀ command ∈ history, command ≠ .reset)
    (deep : ∀ stretch, stretch <+: history →
      base.length ≤ (machine.after stretch).stack.depth)
    (held : base <:+ machine.stack.frames) :
    base <:+ (machine.after history).stack.frames := by
  induction history generalizing machine with
  | nil => exact held
  | cons command rest inductionHypothesis =>
    obtain ⟨first, later⟩ := List.forall_mem_cons.mp unreset
    have reached : base <:+ (machine.obey command).machine.stack.frames := by
      by_cases steps : command = .step
      · subst steps
        exact suffix_step machine base held (deep [.step] (by simp))
      · rw [stack_obey machine command first steps]
        exact held
    exact inductionHypothesis _ later
      (fun stretch within => deep (command :: stretch) (by simpa using within)) reached

/-- The first command other than a reset behind which the stack no longer holds more than some
addresses at its bottom is a return to the next address. A command moves the stack by one address,
so just before it there was exactly that address above them. -/
theorem leavesCall_of_not_deeper (machine : Machine) (address : UInt16) (base : CallStack)
    (held : address :: base.frames <:+ machine.stack.frames) (command : Command)
    (unreset : command ≠ .reset)
    (back : (machine.obey command).machine.stack.depth ≤ base.depth) :
    command = .step ∧ machine.leavesCall = true ∧ machine.step.machine.stack = base ∧
      machine.step.machine.counter = address := by
  have long := held.length_le
  rw [List.length_cons] at long
  by_cases steps : command = .step
  · subst steps
    have stepped : machine.step.machine.stack.frames.length ≤ base.frames.length := back
    cases machine.movesStack with
    | enters _ _ pushed =>
      rw [pushed, List.length_cons] at stepped
      omega
    | keeps _ _ kept =>
      rw [kept] at stepped
      omega
    | leaves _ leaving popped =>
      have lengths := congrArg List.length popped
      rw [List.length_cons] at lengths
      have whole := held.eq_of_length (by rw [List.length_cons]; omega)
      rw [popped, List.cons.injEq] at whole
      exact ⟨rfl, leaving, CallStack.ext_frames _ _ whole.2.symm, whole.1.symm⟩
  · rw [stack_obey machine command unreset steps] at back
    simp only [CallStack.depth] at back
    omega

end Machine

/-- The exchange resets the machine. -/
def Exchange.isReset (exchange : Exchange) : Bool :=
  match exchange.command with
  | .reset => true
  | _ => false

/-- The exchange is a step with a property of the machine that makes it. -/
def Exchange.isStepWith (property : Machine → Bool) (exchange : Exchange) : Bool :=
  match exchange.command with
  | .step => property exchange.machine
  | _ => false

namespace Machine

/-- The exchanges of a history behind its last reset, or all of them if there is none. -/
def exchangesSinceReset (machine : Machine) (history : List Command) : List Exchange :=
  (machine.exchanges history).rtakeWhile fun exchange => !exchange.isReset

/-- The steps with a property that a history makes behind its last reset. -/
def stepsSinceReset (machine : Machine) (property : Machine → Bool)
    (history : List Command) : Nat :=
  (machine.exchangesSinceReset history).countP (Exchange.isStepWith property)

/-- A reset starts the count anew, a step with the property raises it, and nothing else moves it.
The count is followed from the front of the history, as the machine is. -/
theorem stepsSinceReset_concat (machine : Machine) (property : Machine → Bool)
    (earlier : List Command) (command : Command) :
    machine.stepsSinceReset property (earlier ++ [command]) =
      match command with
      | .reset => 0
      | .step =>
        machine.stepsSinceReset property earlier +
          if property (machine.after earlier) then 1 else 0
      | _ => machine.stepsSinceReset property earlier := by
  simp only [stepsSinceReset, exchangesSinceReset, exchanges_append, exchanges]
  cases command with
  | reset => rw [List.rtakeWhile_concat_neg _ _ _ (by simp [Exchange.isReset])]; rfl
  | _ =>
    rw [List.rtakeWhile_concat_pos _ _ _ (by simp [Exchange.isReset]), List.countP_append,
      List.countP_singleton]
    rfl

/-- Of a history of a machine without calls, the calls since the last reset less the returns are
in progress. The induction is on the last command, by what a step makes of the depth; a reset
empties the stack and starts both counts anew. -/
theorem depth_after (machine : Machine) (idle : machine.stack.depth = 0)
    (history : List Command) :
    (machine.after history).stack.depth + machine.stepsSinceReset leavesCall history =
      machine.stepsSinceReset entersCall history := by
  induction history using List.reverseRecOn with
  | nil => simpa [stepsSinceReset, exchangesSinceReset, exchanges] using idle
  | append_singleton earlier command inductionHypothesis =>
    rw [after_append, stepsSinceReset_concat, stepsSinceReset_concat]
    generalize machine.after earlier = reached at *
    cases command with
    | reset => rfl
    | step =>
      have moved := reached.depth_step
      simp only [after_cons, after_nil, obey]
      omega
    | _ =>
      rw [after_cons, after_nil, stack_obey _ _ (by simp) (by simp)]
      exact inductionHypothesis

/-- As long as the stack stays deeper than before a call, the calls in progress before it and its
own return address stay at the bottom of the stack, and the first command that ends this is the
matching return. The address that the call pushed and those below it are the bottom that the
history cannot reach. -/
theorem return_of_entersCall (caller : Machine) (calls : caller.entersCall = true)
    (continuation : List Command) (unreset : ∀ command ∈ continuation, command ≠ .reset)
    (deeper : ∀ stretch, stretch <+: continuation →
      caller.stack.depth < (caller.step.machine.after stretch).stack.depth) :
    let reached := caller.step.machine.after continuation
    caller.stack.toList ++ [caller.counter + 2] <+: reached.stack.toList ∧
      ∀ command, command ≠ .reset →
        (reached.obey command).machine.stack.depth ≤ caller.stack.depth →
        command = .step ∧ reached.leavesCall = true ∧
          reached.step.machine.stack = caller.stack ∧
          reached.step.machine.counter = caller.counter + 2 := by
  intro reached
  have pushed : caller.step.machine.stack.frames =
      (caller.counter + 2) :: caller.stack.frames := by
    cases caller.movesStack with
    | enters _ _ pushed => exact pushed
    | leaves staying _ _ => simp [calls] at staying
    | keeps notEntering _ _ => simp [calls] at notEntering
  have held : (caller.counter + 2) :: caller.stack.frames <:+ reached.stack.frames :=
    suffix_after _ _ continuation unreset deeper (pushed ▸ List.suffix_rfl)
  refine ⟨?_, leavesCall_of_not_deeper reached _ _ held⟩
  rw [CallStack.toList, CallStack.toList, ← List.reverse_cons, List.reverse_prefix]
  exact held

/-- Every call is matched by the return that first leaves the stack no deeper than the call found
it, whatever happens in between short of a reset; and behind every history of a machine that was
switched on, the calls since the last reset less the returns are in progress.

Both rest on the three things that a step can make of the stack. For the first part these keep the
addresses up to the return address of the call where they are, by induction on the history, until
a return takes that very address; a reset is excluded because it empties the stack without
returning. For the second part they are counted. -/
theorem calls_matched :
    (∀ (caller : Machine) (continuation : List Command), caller.entersCall = true →
      (∀ command ∈ continuation, command ≠ .reset) →
      (∀ stretch, stretch <+: continuation →
        caller.stack.depth < (caller.step.machine.after stretch).stack.depth) →
      let reached := caller.step.machine.after continuation
      caller.stack.toList ++ [caller.counter + 2] <+: reached.stack.toList ∧
        ∀ command, command ≠ .reset →
          (reached.obey command).machine.stack.depth ≤ caller.stack.depth →
          command = .step ∧ reached.leavesCall = true ∧
            reached.step.machine.stack = caller.stack ∧
            reached.step.machine.counter = caller.counter + 2) ∧
      ∀ (config : Config) (entropy : Entropy) (history : List Command),
        ((powerOn config entropy).after history).stack.depth +
            (powerOn config entropy).stepsSinceReset leavesCall history =
          (powerOn config entropy).stepsSinceReset entersCall history :=
  ⟨fun caller continuation calls => return_of_entersCall caller calls continuation,
    fun config entropy => depth_after (powerOn config entropy) rfl⟩

/-- A machine that stands at a call in a routine that was called itself. -/
def nestedCaller : Machine :=
  (powerOn {} (Entropy.cycle #[])).after
    [.load [0x22, 0x04, 0x00, 0xEE, 0x22, 0x08, 0x00, 0xEE, 0x22, 0x06, 0x00, 0xEE], .step]

/-- Its call makes a call of its own and returns from it before it is returned from,
to the word behind it. -/
theorem calls_matched_nestedCaller :
    nestedCaller.entersCall = true ∧ nestedCaller.stack.toList = [0x202] ∧
      (nestedCaller.step.machine.after [.step, .tick]).stack.toList = [0x202, 0x206, 0x20A] ∧
      (nestedCaller.step.machine.after [.step, .tick, .step]).leavesCall = true ∧
      (nestedCaller.step.machine.after [.step, .tick, .step]).step.machine.stack =
        nestedCaller.stack ∧
      (nestedCaller.step.machine.after [.step, .tick, .step]).step.machine.counter = 0x206 := by
  obtain ⟨calls, counter, frames, nested, returned⟩ :
      nestedCaller.entersCall = true ∧ nestedCaller.counter = 0x204 ∧
        nestedCaller.stack.toList = [0x202] ∧
        (nestedCaller.step.machine.after [.step, .tick]).stack.toList = [0x202, 0x206, 0x20A] ∧
        ((nestedCaller.step.machine.after [.step, .tick, .step]).obey .step).machine.stack.depth ≤
          nestedCaller.stack.depth := by
    decide +kernel
  have deeper : ∀ stretch ∈ List.inits [Command.step, .tick, .step],
      nestedCaller.stack.depth < (nestedCaller.step.machine.after stretch).stack.depth := by
    simp only [List.inits, List.forall_mem_cons, List.map_cons, List.map_nil]
    decide +kernel
  obtain ⟨_, matching⟩ := calls_matched.1 nestedCaller [.step, .tick, .step] calls (by simp)
    fun stretch within => deeper stretch ((List.mem_inits _ _).mpr within)
  obtain ⟨_, leaving, stack, reached⟩ := matching .step (by simp) returned
  exact ⟨calls, frames, nested, leaving, stack, by rw [reached, counter]; rfl⟩

end Machine

end Chip8
