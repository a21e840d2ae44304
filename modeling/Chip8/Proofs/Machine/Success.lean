import Chip8.Proofs.Instruction.Fields
import Chip8.Proofs.Machine.Transition

/-!
# Successful steps

A step succeeds in one way only: the word at the counter is inside memory, it is read
under the policy as an instruction or as nothing, that has its effect on the machine
behind the fetch, and the effect is completed. A law about successful steps is therefore
a law about effects and about what completing them adds.
-/

namespace Chip8

namespace Machine

/-- The effect of what a word is read as. A word to pass over has none: the machine goes on as it
is. -/
def perform (machine : Machine) : Option Instruction → Except StackFault Effect
  | none => .ok { machine }
  | some instruction => machine.execute instruction

/-- The next step has the effect of what the word at the counter is read as. The conditions are
those under which a step succeeds. -/
structure Performs (machine : Machine) (found : Option Instruction) (effect : Effect) : Prop where
  active : machine.Active
  inside : machine.InMemory
  decoded : Instruction.decodeUnder machine.config.unknown machine.nextWord = .ok found
  done : machine.fetched.perform found = .ok effect

/-- The word is read by its fields, so the cases of reading are the cases of a successful step. -/
theorem Performs.read {machine : Machine} {found : Option Instruction} {effect : Effect}
    (performs : machine.Performs found effect) :
    Instruction.ReadFrom machine.nextWord found :=
  Instruction.readFrom_of_decodeUnder _ _ _ performs.decoded

/-- No effect changes the configuration. -/
theorem Performs.config {machine : Machine} {found : Option Instruction} {effect : Effect}
    (performs : machine.Performs found effect) : effect.machine.config = machine.config := by
  have done := performs.done
  cases found with
  | none =>
    cases done
    rfl
  | some instruction => exact (confined_of_execute _ _ _ done).config

/-- A successful step completes an effect. Of the six cases of a step four fail, and the two that
are left differ only in whether the word has an instruction. -/
theorem performs_of_ok (machine : Machine) (signal : Signal)
    (succeeded : machine.step.result = .ok signal) :
    ∃ found effect events, machine.Performs found effect ∧ effect.signal = signal ∧
      machine.step = effect.complete events := by
  have taken := machine.transition_step
  generalize machine.step = outcome at taken succeeded ⊢
  cases taken with
  | halted fault stopped => contradiction
  | overran active outside => contradiction
  | refused cause active inside unknown => contradiction
  | failed instruction cause active inside decoded unable => contradiction
  | skipped active inside unknown =>
    exact ⟨none, _, _, ⟨active, inside, unknown, rfl⟩, Except.ok.inj succeeded, rfl⟩
  | executed instruction effect active inside decoded done =>
    exact ⟨some instruction, effect, _, ⟨active, inside, decoded, done⟩,
      Except.ok.inj succeeded, rfl⟩

end Machine

end Chip8
