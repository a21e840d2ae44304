import Chip8.Proofs.Machine.Exchange
import Chip8.Proofs.Machine.Failure

/-!
# Leniency

Two machines that differ only in what they make of unknown words, one passing over
them and one refusing them, cannot be told apart until the strict one refuses a
word. Only decoding asks for the policy, and there the strict set is a restriction
of the relaxed one, so whatever the strict machine executes the lenient one
executes as well.

What the lenient machine does instead of refusing is then the one difference: it
skips by the registers of the two relaxed groups, and otherwise goes on behind the
word.

Entropies count as equal when they will deliver the same bytes, however they came
about.
-/

namespace Chip8

/-- The entropies will deliver the same bytes. What they have delivered already is left out, since
no instruction can ask for it. -/
def Entropy.Alike (left right : Entropy) : Prop :=
  ∀ ahead, left.upcoming ahead = right.upcoming ahead

namespace Entropy

/-- Entropies that are alike deliver the same next byte. -/
theorem Alike.next_fst {left right : Entropy} (alike : left.Alike right) :
    left.next.1 = right.next.1 := alike 0

/-- Entropies that are alike stay so behind a delivered byte. -/
theorem Alike.next_snd {left right : Entropy} (alike : left.Alike right) :
    left.next.2.Alike right.next.2 := by
  intro ahead
  rw [upcoming_next, upcoming_next]
  exact alike (ahead + 1)

end Entropy

namespace Instruction

/-- A policy that refuses unknown words passes over none: what is not in the strict set is an
error to it. -/
theorem decodeUnder_halt_ne_none (opcode : Opcode) : decodeUnder .halt opcode ≠ .ok none := by
  rw [decodeUnder_halt]
  cases ofOpcode? opcode <;> simp

/-- Whatever a policy decodes is decoded alike by the policy that passes over unknown words. This
is all that the twins need to know about the two sets of words. -/
theorem decodeUnder_skip_of_decodeUnder (policy : UnknownWords) (opcode : Opcode)
    (instruction : Instruction) (decoded : decodeUnder policy opcode = .ok (some instruction)) :
    decodeUnder .skip opcode = .ok (some instruction) :=
  congrArg Except.ok (ofOpcodeRelaxed?_of_decodeUnder policy opcode instruction decoded)

end Instruction

namespace Machine

/-- The same machine under another configuration and with other entropy. -/
def retuned (machine : Machine) (config : Config) (entropy : Entropy) : Machine :=
  { machine with config, entropy }

/-- The machines agree in everything, but the first passes over unknown words and the second
refuses them. Their entropies need only deliver the same bytes, and both have the same cadence, so
that their timers run alike. -/
structure Twins (lenient strict : Machine) : Prop where
  passesOver : lenient.config.unknown = .skip
  refuses : strict.config.unknown = .halt
  cadence : lenient.config.cadence = strict.config.cadence
  entropy : lenient.entropy.Alike strict.entropy
  others : lenient = strict.retuned lenient.config lenient.entropy

/-- An instruction neither sees nor changes the configuration, and of the entropy it sees nothing
but the next byte. The four instructions that look at something else first are followed by hand;
for the others both sides compute to the same effect. -/
theorem execute_retuned (machine : Machine) (config : Config) (entropy : Entropy)
    (alike : entropy.Alike machine.entropy) (instruction : Instruction) :
    (machine.retuned config entropy).execute instruction =
      (machine.execute instruction).map fun effect =>
        { effect with
          machine := effect.machine.retuned config
            (if instruction.takesEntropy then entropy.next.2 else entropy) } := by
  have byte := alike.next_fst
  cases instruction
  case returnFromCall =>
    simp only [execute, retuned]
    cases machine.stack.pop <;> rfl
  case call target =>
    simp only [execute, retuned]
    cases machine.stack.push (Flow.next.target machine.counter.toNat).toUInt16 <;> rfl
  case awaitKey x =>
    simp only [execute, awaitKey, retuned]
    cases machine.keypad.lowestPressed <;> rfl
  case random x mask =>
    simp only [execute, retuned, byte]
    rfl
  all_goals rfl

/-- Only a random instruction takes a byte, and it takes one, so entropies that were alike are
alike behind it. -/
theorem entropy_of_execute (machine : Machine) (instruction : Instruction) (effect : Effect)
    (executed : machine.execute instruction = .ok effect) :
    effect.machine.entropy =
      if instruction.takesEntropy then machine.entropy.next.2 else machine.entropy := by
  cases takes : instruction.takesEntropy with
  | false =>
    exact (confined_of_execute machine instruction effect executed).entropy takes
  | true =>
    cases instruction <;> simp only [Instruction.takesEntropy, Bool.false_eq_true] at takes
    case random x mask =>
      cases executed
      rfl

/-- Finishing a step does not tell configurations of the same cadence apart. The cadence is the
one setting that it asks for, to count the timers down or not. -/
theorem complete_retuned (effect : Effect) (config : Config) (entropy : Entropy)
    (events : List Event) (cadence : config.cadence = effect.machine.config.cadence) :
    ({ effect with machine := effect.machine.retuned config entropy }.complete events) =
      { effect.complete events with
        machine := (effect.complete events).machine.retuned config entropy } := by
  simp only [Effect.complete, retuned, cadence]
  cases effect.machine.config.cadence <;> rfl

/-- The machine refuses the word in its next step. A machine that such a refusal has halted goes
on refusing the same word. -/
def RefusesNext (machine : Machine) (opcode : Opcode) : Prop :=
  machine.step.result = .error (.opcode (.unsupported opcode))

/-- A refusal halts the machine for the word. -/
theorem refusesNext_iff (machine : Machine) (opcode : Opcode) :
    machine.RefusesNext opcode ↔
      machine.step.machine.status = .halted (.opcode (.unsupported opcode)) :=
  (status_step_eq_halted_iff machine _).symm

/-- As long as the strict machine refuses nothing the step of the lenient one is the same. The
proof takes the transition of the strict machine and makes the same one for the lenient machine. A
skipped word is not among them, because the strict machine skips none. -/
theorem step_of_twins (lenient strict : Machine) (twins : lenient.Twins strict)
    (accepted : ∀ opcode, ¬strict.RefusesNext opcode) :
    ∃ entropy, entropy.Alike strict.step.machine.entropy ∧
      lenient.step =
        { strict.step with machine := strict.step.machine.retuned lenient.config entropy } := by
  obtain ⟨passesOver, refuses, cadence, alike, others⟩ := twins
  generalize lenient.config = config at *
  generalize lenient.entropy = entropy at *
  subst others
  -- Only a refusal or a skipped word could part the twins, and the strict machine makes
  -- neither.
  have taken := strict.transition_step
  generalize outcome : strict.step = stepped at taken
  cases taken with
  | halted fault stopped =>
    exact ⟨entropy, alike, step_of_halted _ fault stopped⟩
  | overran active outside =>
    exact ⟨entropy, alike, step_eq_of_transition _ _ (.overran active outside)⟩
  | refused cause active inside unknown =>
    obtain ⟨_, _, rfl⟩ := (Instruction.decodeUnder_eq_error_iff _ _ _).mp unknown
    exact absurd (congrArg Outcome.result outcome) (accepted _)
  | skipped active inside unknown =>
    rw [refuses] at unknown
    exact absurd unknown (Instruction.decodeUnder_halt_ne_none _)
  | failed instruction cause active inside decoded unable =>
    have relaxed := Instruction.decodeUnder_skip_of_decodeUnder _ _ _ decoded
    rw [← passesOver] at relaxed
    have alsoUnable := execute_retuned strict.fetched config entropy alike instruction
    rw [unable] at alsoUnable
    exact ⟨entropy, alike,
      step_eq_of_transition _ _ (.failed _ _ active inside relaxed alsoUnable)⟩
  | executed instruction effect active inside decoded done =>
    have relaxed := Instruction.decodeUnder_skip_of_decodeUnder _ _ _ decoded
    rw [← passesOver] at relaxed
    have alsoDone := execute_retuned strict.fetched config entropy alike instruction
    rw [done] at alsoDone
    refine ⟨if instruction.takesEntropy then entropy.next.2 else entropy, ?_, ?_⟩
    · rw [Effect.machine_complete, entropy_of_execute _ _ _ done]
      split
      · exact alike.next_snd
      · exact alike
    · have paced : config.cadence = effect.machine.config.cadence := by
        rw [(confined_of_execute _ _ _ done).config]
        exact cadence
      rw [← complete_retuned effect config _ _ paced]
      exact step_eq_of_transition _ _ (.executed _ _ active inside relaxed alsoDone)

/-- A command other than a step sees neither the configuration nor the entropy. A command that
replaces the entropy replaces it for both by the same. -/
theorem obey_retuned (machine : Machine) (config : Config) (entropy : Entropy)
    (alike : entropy.Alike machine.entropy) (command : Command) (other : command ≠ .step) :
    ∃ left, left.Alike (machine.obey command).machine.entropy ∧
      (machine.retuned config entropy).obey command =
        { machine.obey command with
          machine := (machine.obey command).machine.retuned config left } := by
  cases command with
  | step => contradiction
  | load program =>
    refine ⟨entropy, ?_, ?_⟩ <;>
      by_cases fits : program.length ≤ Memory.programCapacity <;>
      simp only [obey, load, retuned, fits, if_true, if_false, alike]
  | setKey key pressed =>
    refine ⟨entropy, ?_, ?_⟩ <;> simp only [obey, setKey, retuned] <;>
      cases machine.keypad.set key pressed <;> simp only [alike]
  | setEntropy fresh => exact ⟨fresh, fun ahead => rfl, rfl⟩
  | reset => exact ⟨entropy, alike, rfl⟩
  | tick => exact ⟨entropy, alike, rfl⟩
  | setKeys keypad => exact ⟨entropy, alike, rfl⟩

/-- As long as the strict machine refuses nothing the lenient one answers and reports the same,
and twins stay twins, since no command changes a configuration. -/
theorem obey_of_twins (lenient strict : Machine) (twins : lenient.Twins strict)
    (command : Command) (accepted : command = .step → ∀ opcode, ¬strict.RefusesNext opcode) :
    (lenient.obey command).reply = (strict.obey command).reply ∧
      (lenient.obey command).events = (strict.obey command).events ∧
      (lenient.obey command).machine.Twins (strict.obey command).machine := by
  obtain ⟨entropy, alike, same⟩ : ∃ entropy, entropy.Alike (strict.obey command).machine.entropy ∧
      lenient.obey command =
        { strict.obey command with
          machine := (strict.obey command).machine.retuned lenient.config entropy } := by
    by_cases steps : command = .step
    · subst steps
      obtain ⟨entropy, alike, same⟩ := step_of_twins lenient strict twins (accepted rfl)
      exact ⟨entropy, alike, by simp only [obey, same]⟩
    · rw [twins.others]
      exact obey_retuned strict lenient.config lenient.entropy twins.entropy command steps
  rw [same]
  refine ⟨rfl, rfl, twins.passesOver, ?_, ?_, alike, rfl⟩
  · rw [config_obey]
    exact twins.refuses
  · rw [config_obey]
    exact twins.cadence

/-- An unknown word has halted the machine. -/
def RefusedWord (machine : Machine) : Prop :=
  ∃ opcode, machine.status = .halted (.opcode (.unsupported opcode))

/-- Only a refusal halts a machine for an unknown word. Passive commands keep the status, and a
reset leaves no halt behind. -/
theorem not_refusedWord_obey (machine : Machine) (command : Command)
    (accepted : command = .step → ∀ opcode, ¬machine.RefusesNext opcode)
    (unrefused : ¬machine.RefusedWord) : ¬(machine.obey command).machine.RefusedWord := by
  rintro ⟨opcode, stopped⟩
  rcases command.step_or_reset_or_passive with rfl | rfl | passive
  · exact accepted rfl opcode ((refusesNext_iff machine opcode).mpr stopped)
  · contradiction
  · rw [(sameCore_obey machine command passive).status] at stopped
    exact unrefused ⟨opcode, stopped⟩

/-- The relaxed set finds a register skip in the word, and its condition holds. These are the
words of two groups, which the strict set has only with a low nibble of zero. -/
def skipsAt (machine : Machine) (opcode : Opcode) : Bool :=
  match opcode.group with
  | 0x5 => machine.registers.read opcode.first == machine.registers.read opcode.second
  | 0x9 => machine.registers.read opcode.first != machine.registers.read opcode.second
  | _ => false

/-- The next step passes over the word: it remembers the word, moves behind it, and
behind one more word if the word is a register skip whose condition holds. Nothing
else changes but the timers, if counting them down is the machine's part. -/
structure PassesOver (machine : Machine) (opcode : Opcode) : Prop where
  inside : machine.InMemory
  word : machine.nextWord = opcode
  result : machine.step.result = .ok .quiet
  left : machine.step.machine =
    { machine with
      opcode := opcode
      counter := machine.counter + if machine.skipsAt opcode then 4 else 2
      delay := machine.config.cadence.countDown machine.delay
      sound := machine.config.cadence.countDown machine.sound }

/-- A lenient machine makes of an unknown word at most a register skip. There are three cases, the
two relaxed groups and the words that the relaxed set does not know either, and the effect of each
is a skip, be it one whose condition fails. -/
theorem step_of_unsupported (machine : Machine) (active : machine.Active)
    (lenient : machine.config.unknown = .skip) (inside : machine.InMemory)
    (unknown : Instruction.ofOpcode? machine.nextWord = none) :
    ∃ events, machine.step =
      Effect.complete
        { machine := machine.fetched, flow := .skipIf (machine.skipsAt machine.nextWord) }
        events := by
  have groups : machine.nextWord.group = 5 ∨ machine.nextWord.group = 9 ∨
      (machine.nextWord.group ≠ 5 ∧ machine.nextWord.group ≠ 9) := by omega
  rcases groups with same | different | ⟨notSame, notDifferent⟩
  · have decoded : Instruction.decodeUnder machine.config.unknown machine.nextWord =
        .ok (some (.skipIfSame machine.nextWord.first machine.nextWord.second)) := by
      simp only [lenient, Instruction.decodeUnder, Instruction.ofOpcodeRelaxed?, same]
    refine ⟨_, step_eq_of_transition machine _ (.executed _ _ active inside decoded ?_)⟩
    simp only [skipsAt, same]
    rfl
  · have decoded : Instruction.decodeUnder machine.config.unknown machine.nextWord =
        .ok (some (.skipIfDifferent machine.nextWord.first machine.nextWord.second)) := by
      simp only [lenient, Instruction.decodeUnder, Instruction.ofOpcodeRelaxed?, different]
    refine ⟨_, step_eq_of_transition machine _ (.executed _ _ active inside decoded ?_)⟩
    simp only [skipsAt, different]
    rfl
  · have decoded : Instruction.decodeUnder machine.config.unknown machine.nextWord =
        .ok none := by
      simp only [lenient, Instruction.decodeUnder,
        Instruction.ofOpcodeRelaxed?_eq _ notSame notDifferent, unknown]
    have unskipped : machine.skipsAt machine.nextWord = false := by
      unfold skipsAt
      split
      · contradiction
      · contradiction
      · rfl
    rw [unskipped]
    exact ⟨_, step_eq_of_transition machine _ (.skipped active inside decoded)⟩

/-- A lenient machine passes over every word that the strict set does not have, provided that it
comes to decode the word: it has not halted, and the word is in memory. -/
theorem passesOver_of_unsupported (machine : Machine) (active : machine.Active)
    (lenient : machine.config.unknown = .skip) (inside : machine.InMemory)
    (unknown : Instruction.ofOpcode? machine.nextWord = none) :
    machine.PassesOver machine.nextWord := by
  obtain ⟨events, stepped⟩ := step_of_unsupported machine active lenient inside unknown
  refine ⟨inside, rfl, ?_, ?_⟩
  · rw [stepped]
    rfl
  · rw [stepped, Effect.machine_complete]
    simp only [fetched, Flow.toUInt16_target_skipIf]

/-- What a machine refuses, unless it has been halted by a word before, is the word at its
counter, which the strict set does not have. A machine that was halted by a word repeats its
refusal wherever the counter stands, so that case is left out. -/
theorem unsupported_of_refusesNext (machine : Machine) (unrefused : ¬machine.RefusedWord)
    (opcode : Opcode) (refuses : machine.RefusesNext opcode) :
    machine.Active ∧ machine.InMemory ∧ machine.config.unknown = .halt ∧
      machine.nextWord = opcode ∧ Instruction.ofOpcode? opcode = none := by
  have active : machine.Active := by
    intro fault stopped
    rw [RefusesNext, step_of_halted machine fault stopped] at refuses
    cases refuses
    exact unrefused ⟨opcode, stopped⟩
  cases (failsWith_of_step machine active _ refuses).1 with
  | unsupported inside strict unknown => exact ⟨active, inside, strict, rfl, unknown⟩

/-- A lenient machine refuses no word, unless it has been halted by one. A machine could be put
together that way, though none comes to it. -/
theorem not_refusesNext_of_lenient (machine : Machine) (lenient : machine.config.unknown = .skip)
    (unrefused : ¬machine.RefusedWord) (opcode : Opcode) : ¬machine.RefusesNext opcode := by
  intro refuses
  obtain ⟨_, _, strict, _⟩ := unsupported_of_refusesNext machine unrefused opcode refuses
  rw [lenient] at strict
  contradiction

/-- No lenient machine that was switched on is ever halted by an unknown word. That it is lenient
and that no word has halted it are kept together, since each command needs both. -/
theorem not_refusedWord_after_powerOn (config : Config) (entropy : Entropy)
    (history : List Command) (lenient : config.unknown = .skip) :
    ¬((powerOn config entropy).after history).RefusedWord := by
  have unrefused : ¬(powerOn config entropy).RefusedWord := by simp [RefusedWord, powerOn]
  refine (after_induction (fun machine => machine.config.unknown = .skip ∧ ¬machine.RefusedWord)
    ?_ _ history ⟨lenient, unrefused⟩).2
  rintro machine command ⟨passesOver, clean⟩
  rw [config_obey]
  exact ⟨passesOver, not_refusedWord_obey machine command
    (fun _ => not_refusesNext_of_lenient machine passesOver clean) clean⟩

/-- No step of the history is answered by the refusal of a word. Steps that fail for another
reason are allowed. -/
def Accepts (machine : Machine) (history : List Command) : Prop :=
  ∀ exchange ∈ machine.exchanges history, ∀ opcode,
    exchange.response.reply ≠ .stepped (.error (.opcode (.unsupported opcode)))

/-- A step is answered by the refusal of a word exactly if the machine refuses it, and no other
command is, because its reply is of another kind. -/
theorem reply_eq_unsupported_iff (machine : Machine) (command : Command) (opcode : Opcode) :
    (machine.obey command).reply = .stepped (.error (.opcode (.unsupported opcode))) ↔
      command = .step ∧ machine.RefusesNext opcode := by
  cases command with
  | step => simp [obey, RefusesNext]
  | load program =>
    unfold obey
    dsimp only
    split <;> simp
  | setKey key pressed =>
    unfold obey
    dsimp only
    split <;> simp
  | reset => simp [obey]
  | tick => simp [obey]
  | setKeys keypad => simp [obey]
  | setEntropy entropy => simp [obey]

/-- A history is accepted exactly if its first command is and the rest is accepted behind it.
Inductions over accepted histories go by this. -/
theorem accepts_cons_iff (machine : Machine) (command : Command) (rest : List Command) :
    machine.Accepts (command :: rest) ↔
      (command = .step → ∀ opcode, ¬machine.RefusesNext opcode) ∧
        (machine.obey command).machine.Accepts rest := by
  simp only [Accepts, exchanges, List.forall_mem_cons, Exchange.response, ne_eq,
    reply_eq_unsupported_iff, not_and]
  rw [forall_comm]

/-- Nothing is refused without commands. -/
theorem accepts_nil (machine : Machine) : machine.Accepts [] :=
  fun _ member => absurd member List.not_mem_nil

/-- A first step that leaves the machine running is accepted. -/
theorem accepts_step_of_running (machine : Machine)
    (running : machine.step.machine.status = .running) (rest : List Command)
    (accepted : machine.step.machine.Accepts rest) : machine.Accepts (.step :: rest) := by
  refine (accepts_cons_iff machine .step rest).mpr ⟨fun _ opcode refuses => ?_, accepted⟩
  rw [refusesNext_iff, running] at refuses
  contradiction

/-- Twins answer and report the same over every history that the strict machine accepts, and they
stay twins. Neither has then been halted by an unknown word on the way. The induction is on the
history, for any twins, because each command leads to others. -/
theorem after_of_twins (lenient strict : Machine) (twins : lenient.Twins strict)
    (history : List Command) (accepted : strict.Accepts history) :
    lenient.replies history = strict.replies history ∧
      lenient.reports history = strict.reports history ∧
      (lenient.after history).Twins (strict.after history) ∧
      (¬strict.RefusedWord → ¬(strict.after history).RefusedWord) := by
  induction history generalizing lenient strict with
  | nil => exact ⟨rfl, rfl, twins, id⟩
  | cons command rest inductionHypothesis =>
    obtain ⟨first, later⟩ := (accepts_cons_iff strict command rest).mp accepted
    obtain ⟨reply, events, left⟩ := obey_of_twins lenient strict twins command first
    obtain ⟨replies, reports, reached, clean⟩ := inductionHypothesis _ _ left later
    rw [replies_cons, replies_cons, reports_cons, reports_cons, reply, events, replies, reports]
    exact ⟨rfl, rfl, reached, fun unrefused =>
      clean (not_refusedWord_obey strict command first unrefused)⟩

/-- Over every history in which the strict machine refuses no word twins answer and report the
same, and they stay twins. Where the strict machine then refuses a word the lenient one passes
over it, unless both had been halted by such a word to begin with; and no lenient machine that was
switched on ever is.

The machines are followed side by side: the strict machine's transitions are also transitions of
the lenient one, up to the first refusal. What is refused there is the word at the counter, and
the strict set does not have it, so the lenient machine makes at most a register skip of it. A
machine halted by a word would only be repeating an old refusal. That is what the exception is
for, and the last part says that it costs nothing. -/
theorem passesOver_first_refusal (lenient strict : Machine) (twins : lenient.Twins strict)
    (history : List Command) (accepted : strict.Accepts history) :
    lenient.replies history = strict.replies history ∧
      lenient.reports history = strict.reports history ∧
      (lenient.after history).Twins (strict.after history) ∧
      (¬lenient.RefusedWord → ∀ opcode, (strict.after history).RefusesNext opcode →
        Instruction.ofOpcode? opcode = none ∧ (lenient.after history).PassesOver opcode) ∧
      ∀ config entropy earlier, lenient = (powerOn config entropy).after earlier →
        ¬lenient.RefusedWord := by
  obtain ⟨replies, reports, reached, clean⟩ := after_of_twins lenient strict twins history accepted
  refine ⟨replies, reports, reached, fun unrefused opcode refuses => ?_, ?_⟩
  · have startUnrefused : ¬strict.RefusedWord := by
      rw [twins.others] at unrefused
      exact unrefused
    obtain ⟨active, inside, _, word, unknown⟩ :=
      unsupported_of_refusesNext _ (clean startUnrefused) opcode refuses
    have others := reached.others
    generalize strict.after history = refusing at *
    generalize lenient.after history = passing at *
    have sameWord : passing.nextWord = opcode := by
      rw [others]
      exact word
    have passed := passesOver_of_unsupported passing (by rw [others]; exact active)
      reached.passesOver (by rw [others]; exact inside) (by rw [sameWord]; exact unknown)
    rw [sameWord] at passed
    exact ⟨unknown, passed⟩
  · rintro config entropy earlier rfl
    have passesOver := twins.passesOver
    rw [config_after] at passesOver
    exact not_refusedWord_after_powerOn config entropy earlier passesOver

/-- A machine under the instruction cadence that starts its delay timer and then
meets a register skip with a low nibble, with a choice of policy and entropy. -/
def skipper (unknown : UnknownWords) (taken : Nat) : Machine :=
  (powerOn { cadence := .instruction, unknown } ⟨fun _ => 7, taken⟩).after
    [.load [0x61, 0x02, 0xF1, 0x15, 0x50, 0x01]]

/-- Behind two steps the strict skipper refuses the word, and the lenient one, whose
entropy has delivered more of the same bytes, skips behind the next word. -/
theorem passesOver_skipper :
    (skipper .skip 3).Twins (skipper .halt 0) ∧
      (skipper .halt 0).Accepts [.step, .step] ∧
      ((skipper .halt 0).after [.step, .step]).RefusesNext 0x5001 ∧
      ((skipper .skip 3).after [.step, .step]).PassesOver 0x5001 ∧
      ((skipper .skip 3).after [.step, .step, .step]).counter = 0x208 := by
  have twins : (skipper .skip 3).Twins (skipper .halt 0) := ⟨rfl, rfl, rfl, fun _ => rfl, rfl⟩
  obtain ⟨first, second, third, counter⟩ :
      (skipper .halt 0).step.machine.status = .running ∧
        (skipper .halt 0).step.machine.step.machine.status = .running ∧
        ((skipper .halt 0).after [.step, .step]).step.machine.status =
          .halted (.opcode (.unsupported 0x5001)) ∧
        ((skipper .skip 3).after [.step, .step, .step]).counter = 0x208 := by
    decide +kernel
  have accepted : (skipper .halt 0).Accepts [.step, .step] :=
    accepts_step_of_running _ first _ (accepts_step_of_running _ second _ (accepts_nil _))
  have refuses : ((skipper .halt 0).after [.step, .step]).RefusesNext 0x5001 :=
    (refusesNext_iff _ _).mpr third
  have unrefused : ¬(skipper .skip 3).RefusedWord :=
    not_refusedWord_after_powerOn { cadence := .instruction } _ _ rfl
  obtain ⟨_, _, _, passes, _⟩ := passesOver_first_refusal _ _ twins _ accepted
  exact ⟨twins, accepted, refuses, (passes unrefused _ refuses).2, counter⟩

end Machine

end Chip8
