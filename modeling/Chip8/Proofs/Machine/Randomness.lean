import Chip8.Proofs.Machine.Calls
import Chip8.Proofs.Machine.Dependence
import Chip8.Proofs.Machine.Leniency

/-!
# Random bytes in order

A machine takes a byte of its entropy for every random instruction that it executes
and for nothing else: not for a word that it passes over, a step that fails, a wait,
a reset or a program that is loaded. The bytes that are gone are therefore the random
steps that were made, and each of them got the byte that its place among them says.

Nothing else reads the entropy. Two entropies that begin with the same bytes cannot
be told apart before these are used up, whatever they would deliver later.
-/

namespace Chip8

namespace Entropy

/-- The entropy behind a number of further bytes. -/
def advance (entropy : Entropy) (count : Nat) : Entropy :=
  { entropy with taken := entropy.taken + count }

/-- Without further bytes nothing is gone. -/
@[simp] theorem advance_zero (entropy : Entropy) : entropy.advance 0 = entropy := rfl

/-- Bytes that are taken one after the other add up, so a history can be counted piece by piece.
-/
theorem advance_advance (entropy : Entropy) (earlier later : Nat) :
    (entropy.advance earlier).advance later = entropy.advance (earlier + later) := by
  simp only [advance, Nat.add_assoc]

/-- What lies ahead of the bytes that are gone was further ahead before. -/
theorem upcoming_advance (entropy : Entropy) (count ahead : Nat) :
    (entropy.advance count).upcoming ahead = entropy.upcoming (count + ahead) := by
  simp only [upcoming, advance, Nat.add_assoc]

/-- Entropies that are alike stay so behind equally many bytes. -/
theorem Alike.advance {left right : Entropy} (alike : left.Alike right) (count : Nat) :
    (left.advance count).Alike (right.advance count) := by
  intro ahead
  rw [upcoming_advance, upcoming_advance]
  exact alike (count + ahead)

end Entropy

/-- The words of group twelve are the random instructions, under either policy. What the
instruction works on are the register and the byte of its word. -/
theorem Instruction.decodeUnder_random_iff (policy : UnknownWords) (opcode : Opcode) (x : Nat)
    (mask : UInt8) :
    decodeUnder policy opcode = .ok (some (.random x mask)) ↔
      opcode.group = 0xC ∧ x = opcode.first ∧ mask = opcode.byte := by
  obtain ⟨whole, lower, _⟩ := fields_recompose opcode
  have first := opcode.first_lt
  have byte := opcode.byte.toNat_lt
  have small := mask.toNat_lt
  rw [decodeUnder_eq_ok_some_iff policy opcode (.random x mask) rfl, ← UInt8.toNat_inj]
  simp only [Encodable, Fits, operands, List.forall_mem_cons, Operand.Fits, word]
  constructor
  · rintro ⟨⟨⟨inside, _⟩, _⟩, written⟩
    omega
  · rintro ⟨group, sameRegister, sameMask⟩
    exact ⟨⟨⟨by omega, by simp⟩, by simp, by simp⟩, by omega⟩

namespace Machine

/-- The next step executes a random instruction, and succeeds. It is read off the answer of the
step and its word, so it is said without the entropy. -/
def drawsByte (machine : Machine) : Bool :=
  machine.step.result.isOk && machine.nextWord.group == 0xC

/-- A step that succeeds was made inside memory by a machine that had not halted, so its word says
what was done. -/
theorem inMemory_of_ok (machine : Machine) (signal : Signal)
    (succeeded : machine.step.result = .ok signal) : machine.Active ∧ machine.InMemory := by
  have taken := machine.transition_step
  generalize machine.step = stepped at taken succeeded
  cases taken with
  | halted fault stopped => contradiction
  | overran active outside => contradiction
  | refused cause active inside unknown => exact ⟨active, inside⟩
  | skipped active inside unknown => exact ⟨active, inside⟩
  | failed instruction cause active inside known unable => exact ⟨active, inside⟩
  | executed instruction effect active inside known done => exact ⟨active, inside⟩

/-- A machine draws a byte exactly where it comes to the random instruction of its word. Such an
instruction cannot fail, so coming to it is enough. -/
theorem drawsByte_iff (machine : Machine) :
    machine.drawsByte = true ↔
      machine.Meets (.random machine.nextWord.first machine.nextWord.byte) := by
  simp only [drawsByte, Bool.and_eq_true, beq_iff_eq]
  constructor
  · rintro ⟨succeeded, group⟩
    have decoded := (Instruction.decodeUnder_random_iff machine.config.unknown machine.nextWord
      _ _).mpr ⟨group, rfl, rfl⟩
    obtain ⟨signal, result⟩ : ∃ signal, machine.step.result = .ok signal := by
      cases result : machine.step.result with
      | ok signal => exact ⟨signal, rfl⟩
      | error fault =>
        rw [result] at succeeded
        contradiction
    obtain ⟨active, inside⟩ := inMemory_of_ok machine signal result
    exact ⟨active, inside, decoded⟩
  · rintro ⟨active, inside, decoded⟩
    refine ⟨?_, ((Instruction.decodeUnder_random_iff _ _ _ _).mp decoded).1⟩
    rw [step_eq_of_transition machine _ (.executed _ _ active inside decoded rfl)]
    rfl

/-- A step that draws a byte masks it into its register. The byte is the next one of the entropy,
and afterwards it is gone. -/
theorem step_of_drawsByte (machine : Machine) (draws : machine.drawsByte = true) :
    machine.step.machine.entropy = machine.entropy.next.2 ∧
      machine.step.machine.registers =
        machine.registers.write machine.nextWord.first
          (machine.entropy.next.1 &&& machine.nextWord.byte) := by
  obtain ⟨active, inside, decoded⟩ := (drawsByte_iff machine).mp draws
  rw [step_eq_of_transition machine _ (.executed _ _ active inside decoded rfl),
    Effect.machine_complete]
  exact ⟨rfl, rfl⟩

/-- Any other step leaves the entropy alone. No transition but the execution of an instruction
reaches it, and of the instructions only the random one does. -/
theorem entropy_step_of_not_drawsByte (machine : Machine) (draws : machine.drawsByte = false) :
    machine.step.machine.entropy = machine.entropy := by
  have notRandom : ∀ x mask, ¬machine.Meets (.random x mask) := by
    intro x mask meets
    obtain ⟨_, rfl, rfl⟩ := (Instruction.decodeUnder_random_iff _ _ _ _).mp meets.decoded
    rw [(drawsByte_iff machine).mpr meets] at draws
    contradiction
  have taken := machine.transition_step
  generalize machine.step = stepped at taken
  cases taken with
  | halted fault stopped => rfl
  | overran active outside => rfl
  | refused cause active inside unknown => rfl
  | failed instruction cause active inside known unable => rfl
  | skipped active inside unknown =>
    rw [Effect.machine_complete]
    rfl
  | executed instruction effect active inside known done =>
    have untaken : instruction.takesEntropy = false := by
      cases instruction
      case random x mask => exact absurd ⟨active, inside, known⟩ (notRandom x mask)
      all_goals rfl
    rw [Effect.machine_complete]
    exact (confined_of_execute _ _ _ done).entropy untaken

/-- How many bytes are drawn during a history: as many as random steps are made. The count is made
from the steps and does not look at the entropy. -/
def bytesDrawn (machine : Machine) (history : List Command) : Nat :=
  (machine.exchanges history).countP (Exchange.isStepWith drawsByte)

/-- The bytes of a history are those of its first command and those of the rest. -/
theorem bytesDrawn_cons (machine : Machine) (command : Command) (rest : List Command) :
    machine.bytesDrawn (command :: rest) =
      (if (⟨machine, command⟩ : Exchange).isStepWith drawsByte then 1 else 0) +
        (machine.obey command).machine.bytesDrawn rest := by
  rw [bytesDrawn, exchanges, List.countP_cons, Nat.add_comm, bytesDrawn]

/-- A command that does not replace the entropy takes a byte if it is a step that draws one, and
otherwise none. In particular a reset gives no byte back. -/
theorem entropy_obey (machine : Machine) (command : Command)
    (unreplaced : ∀ fresh, command ≠ .setEntropy fresh) :
    (machine.obey command).machine.entropy =
      machine.entropy.advance
        (if (⟨machine, command⟩ : Exchange).isStepWith drawsByte then 1 else 0) := by
  cases command with
  | step =>
    change machine.step.machine.entropy =
      machine.entropy.advance (if machine.drawsByte then 1 else 0)
    by_cases draws : machine.drawsByte = true
    · rw [if_pos draws]
      exact (step_of_drawsByte machine draws).1
    · rw [if_neg draws]
      exact entropy_step_of_not_drawsByte machine (eq_false_of_ne_true draws)
  | load program =>
    by_cases fits : program.length ≤ Memory.programCapacity <;>
      simp [obey, load, fits, Exchange.isStepWith]
  | setKey key pressed =>
    by_cases inside : key < Keypad.count <;>
      simp [obey, setKey, Keypad.set, inside, Exchange.isStepWith]
  | reset => rfl
  | tick => rfl
  | setKeys keypad => rfl
  | setEntropy fresh => exact absurd rfl (unreplaced fresh)

/-- Over every history that does not replace the entropy, the bytes that are gone are those of its
random steps. The induction is on the history; what the first command takes is added to what the
rest takes. -/
theorem entropy_after (machine : Machine) (history : List Command)
    (unreplaced : ∀ command ∈ history, ∀ fresh, command ≠ .setEntropy fresh) :
    (machine.after history).entropy = machine.entropy.advance (machine.bytesDrawn history) := by
  induction history generalizing machine with
  | nil => rfl
  | cons command rest inductionHypothesis =>
    obtain ⟨first, later⟩ := List.forall_mem_cons.mp unreplaced
    rw [after_cons, inductionHypothesis _ later, entropy_obey machine command first,
      Entropy.advance_advance, bytesDrawn_cons]

/-- Machines that agree in what the next step reads draw a byte both or neither, since they answer
alike and stand at the same word. -/
theorem drawsByte_of_looksAlike (left right : Machine) (looks : left.LooksAlike right) :
    right.drawsByte = left.drawsByte := by
  rw [drawsByte, drawsByte, (step_of_looksAlike left right looks).1]
  cases result : left.step.result with
  | error fault => rfl
  | ok signal =>
    obtain ⟨active, inside⟩ := inMemory_of_ok left signal result
    rw [looks.word active inside]

/-- Machines that agree in what a step reads draw a byte for the same commands. -/
theorem isStepWith_drawsByte_of_looksAlike (left right : Machine) (command : Command)
    (looks : command = .step → left.LooksAlike right) :
    (⟨right, command⟩ : Exchange).isStepWith drawsByte =
      (⟨left, command⟩ : Exchange).isStepWith drawsByte := by
  cases command
  case step => exact drawsByte_of_looksAlike left right (looks rfl)
  all_goals rfl

/-- A command replaces the entropy of every machine by the same, or it takes as many bytes from
machines that agree in what a step reads. These are the only two ways for a command to reach it.
-/
theorem entropy_obey_of_looksAlike (left right : Machine) (command : Command)
    (looks : command = .step → left.LooksAlike right) :
    (left.obey command).machine.entropy = (right.obey command).machine.entropy ∨
      ∃ count, (left.obey command).machine.entropy = left.entropy.advance count ∧
        (right.obey command).machine.entropy = right.entropy.advance count := by
  by_cases replaced : ∃ fresh, command = .setEntropy fresh
  · obtain ⟨fresh, rfl⟩ := replaced
    exact .inl rfl
  · have unreplaced : ∀ fresh, command ≠ .setEntropy fresh := not_exists.mp replaced
    refine .inr ⟨_, entropy_obey left command unreplaced, ?_⟩
    rw [entropy_obey right command unreplaced,
      isStepWith_drawsByte_of_looksAlike left right command looks]

/-- Equal entropies stay equal if the machines agree in what a step reads. -/
theorem entropy_obey_congr (left right : Machine) (command : Command)
    (looks : command = .step → left.LooksAlike right) (same : left.entropy = right.entropy) :
    (left.obey command).machine.entropy = (right.obey command).machine.entropy := by
  rcases entropy_obey_of_looksAlike left right command looks with replaced | ⟨count, taken, other⟩
  · exact replaced
  · rw [taken, other, same]

/-- As long as it foresees the byte that is drawn, other entropy makes no difference to a command,
and as many bytes of it are taken. Of the two machines a step reads the same, the byte included if
it draws one; all other components are the same before it and therefore behind it. -/
theorem obey_setEntropy (machine : Machine) (entropy : Entropy) (command : Command)
    (unreplaced : ∀ fresh, command ≠ .setEntropy fresh)
    (foreseen : (⟨machine, command⟩ : Exchange).isStepWith drawsByte = true →
      entropy.upcoming 0 = machine.entropy.upcoming 0) :
    ((machine.setEntropy entropy).obey command).reply = (machine.obey command).reply ∧
      ((machine.setEntropy entropy).obey command).events = (machine.obey command).events ∧
      ((machine.setEntropy entropy).obey command).machine =
        (machine.obey command).machine.setEntropy
          (entropy.advance
            (if (⟨machine, command⟩ : Exchange).isStepWith drawsByte then 1 else 0)) := by
  have course : machine.SameCourse (machine.setEntropy entropy) :=
    sameCourse_beside machine _ rfl _ _ _ _ entropy
  have looks : command = .step → machine.LooksAlike (machine.setEntropy entropy) := by
    rintro rfl
    refine ⟨course, fun _ _ => rfl, fun instruction meets =>
      ⟨fun _ _ => rfl, fun _ => rfl, fun _ => rfl, fun takes => ?_⟩⟩
    cases instruction <;> simp only [Instruction.takesEntropy, Bool.false_eq_true] at takes
    case random x mask =>
      obtain ⟨_, rfl, rfl⟩ := (Instruction.decodeUnder_random_iff _ _ _ _).mp meets.decoded
      exact (foreseen ((drawsByte_iff machine).mpr meets)).symm
  obtain ⟨reply, events, alike⟩ := obey_of_looksAlike machine _ course command looks
  refine ⟨reply, events, Eq.symm ?_⟩
  have kept := alike.course
  apply eq_of_sameCourse
  · exact ⟨kept.policy, kept.opcode, kept.registers, kept.index, kept.counter, kept.stack,
      kept.screen, kept.status⟩
  · have config := config_obey (machine.setEntropy entropy) command
    exact (config_obey machine command).trans config.symm
  · exact alike.memory_eq rfl
  · exact alike.delay rfl rfl
  · exact alike.sound rfl rfl
  · exact alike.keypad rfl
  · rw [entropy_obey _ command unreplaced,
      isStepWith_drawsByte_of_looksAlike machine _ command looks]
    rfl

/-- Other entropy that begins with the bytes that a history draws makes no difference to the
history. The first command takes at most the first of these bytes, and what then lies ahead of
both entropies again begins with the bytes that the rest draws. -/
theorem after_setEntropy (machine : Machine) (entropy : Entropy) (history : List Command)
    (unreplaced : ∀ command ∈ history, ∀ fresh, command ≠ .setEntropy fresh)
    (foreseen : ∀ ahead < machine.bytesDrawn history,
      entropy.upcoming ahead = machine.entropy.upcoming ahead) :
    (machine.setEntropy entropy).replies history = machine.replies history ∧
      (machine.setEntropy entropy).reports history = machine.reports history ∧
      (machine.setEntropy entropy).after history =
        (machine.after history).setEntropy (entropy.advance (machine.bytesDrawn history)) := by
  induction history generalizing machine entropy with
  | nil => exact ⟨rfl, rfl, rfl⟩
  | cons command rest inductionHypothesis =>
    obtain ⟨first, later⟩ := List.forall_mem_cons.mp unreplaced
    rw [bytesDrawn_cons] at foreseen ⊢
    obtain ⟨reply, events, left⟩ := obey_setEntropy machine entropy command first
      fun draws => foreseen 0 (by rw [if_pos draws]; omega)
    have behind := entropy_obey machine command first
    generalize (if (⟨machine, command⟩ : Exchange).isStepWith drawsByte then 1 else 0) = drawn at *
    obtain ⟨replies, reports, reached⟩ := inductionHypothesis (machine.obey command).machine
      (entropy.advance drawn) later fun ahead inside => by
        rw [behind, Entropy.upcoming_advance, Entropy.upcoming_advance]
        exact foreseen (drawn + ahead) (by omega)
    rw [replies_cons, replies_cons, reports_cons, reports_cons, after_cons, after_cons, reply,
      events, left, replies, reports, reached, Entropy.advance_advance]
    exact ⟨rfl, rfl, rfl⟩

/-- Over every history that does not replace the entropy, a byte is gone for every random step
that it made. A random step behind it gets the byte whose place is their number. And other entropy
that begins with as many of the same bytes leads to the same answers, the same reports and the
same machine, with as many of its own bytes gone.

What one command takes is added up along the history. The byte of a later random step is the next
one behind those that are gone, which gives its place. For the last part two machines are followed
that differ in their entropies alone, each step of which reads the same. A command that replaces
the entropy is excluded, because the bytes behind it are no longer those that are counted here; a
history with such commands is taken piece by piece. -/
theorem random_steps_take_bytes_in_order (machine : Machine) (history : List Command)
    (unreplaced : ∀ command ∈ history, ∀ fresh, command ≠ .setEntropy fresh) :
    let reached := machine.after history
    reached.entropy = machine.entropy.advance (machine.bytesDrawn history) ∧
      (reached.drawsByte = true →
        reached.step.machine.registers =
          reached.registers.write reached.nextWord.first
            (machine.entropy.upcoming (machine.bytesDrawn history) &&& reached.nextWord.byte)) ∧
      ∀ (entropy : Entropy) (foreseen : Nat),
        (∀ ahead < foreseen, entropy.upcoming ahead = machine.entropy.upcoming ahead) →
        machine.bytesDrawn history ≤ foreseen →
        (machine.setEntropy entropy).replies history = machine.replies history ∧
          (machine.setEntropy entropy).reports history = machine.reports history ∧
          (machine.setEntropy entropy).after history =
            reached.setEntropy (entropy.advance (machine.bytesDrawn history)) := by
  intro reached
  have gone := entropy_after machine history unreplaced
  refine ⟨gone, fun draws => ?_, fun entropy foreseen agree enough => ?_⟩
  · have byte : reached.entropy.next.1 = machine.entropy.upcoming (machine.bytesDrawn history) := by
      rw [gone]
      rfl
    rw [(step_of_drawsByte reached draws).2, byte]
  · exact after_setEntropy machine entropy history unreplaced fun ahead inside =>
      agree ahead (Nat.lt_of_lt_of_le inside enough)

/-- Two bytes and, for ever behind them, a third one. -/
def dice (last : UInt8) : Entropy :=
  ⟨fun position => if position = 0 then 0x5A else if position = 1 then 0xC3 else last, 0⟩

/-- A machine whose program begins with an unknown word and a random instruction. -/
def gambler : Machine :=
  (powerOn {} (dice 0x11)).after [.load [0xFF, 0xFF, 0xC1, 0xF0]]

/-- Two steps, a reset into a program of two random instructions, and one step of it. -/
def games : List Command := [.step, .step, .reset, .load [0xC2, 0x0F, 0xC3, 0xFF], .step]

/-- Neither the unknown word nor the reset takes a byte, so the last random instruction
gets the third one; and only it can tell other dice apart. -/
theorem gambler_plays :
    gambler.bytesDrawn games = 2 ∧ (gambler.after games).entropy.taken = 2 ∧
      (gambler.after games).registers.read 2 = 0x03 ∧
      (gambler.after games).step.machine.registers.read 3 = 0x11 ∧
      (gambler.setEntropy (dice 0x99)).after games =
        (gambler.after games).setEntropy ((dice 0x99).advance 2) := by
  obtain ⟨drawn, second, draws, third, mask⟩ :
      gambler.bytesDrawn games = 2 ∧ (gambler.after games).registers.read 2 = 0x03 ∧
        (gambler.after games).drawsByte = true ∧ (gambler.after games).nextWord.first = 3 ∧
        (gambler.after games).nextWord.byte = 0xFF := by
    decide +kernel
  have start : gambler.entropy = dice 0x11 := rfl
  have agree : ∀ ahead < 2, (dice 0x99).upcoming ahead = gambler.entropy.upcoming ahead := by
    rw [start]
    decide
  obtain ⟨gone, next, alike⟩ := random_steps_take_bytes_in_order gambler games (by simp [games])
  obtain ⟨_, _, reached⟩ := alike (dice 0x99) 2 agree (Nat.le_of_eq drawn)
  rw [drawn] at gone next reached
  refine ⟨drawn, ?_, second, ?_, reached⟩
  · rw [gone, start]
    rfl
  · rw [next draws, third, mask, start, Registers.read_write, if_pos rfl]
    rfl

end Machine

end Chip8
