import Chip8.Proofs.Machine.Failure

/-!
# What a step depends on

Every step may read the registers, the index register, the counter, the stack, the
screen and the status. Of everything else it reads little: the two bytes of its
word, and what its instruction asks for, which is a block of memory, the delay
timer, the keys or the next byte of the entropy. Nothing reads the sound timer or
asks who counts the timers down.

Two machines that agree in what is read go through the same step. Whatever else
they agree in they still agree in behind it, because a component is either
replaced by what was read or left alone. Laws about two machines that differ in
something follow from this alone and never look at an instruction again.
-/

namespace Chip8

namespace Instruction

/-- How many bytes from the index register on the instruction reads. Storing reads none, although
it reaches as many. -/
def readLength : Instruction → Nat
  | draw _ _ height => height
  | loadRegisters x => x + 1
  | _ => 0

/-- The instruction reads the delay timer. -/
def readsDelay : Instruction → Bool
  | readDelay _ => true
  | _ => false

/-- The instruction reads the keys. Waiting for one reads them, too. -/
def readsKeys : Instruction → Bool
  | skipIfPressed _ => true
  | skipUnlessPressed _ => true
  | awaitKey _ => true
  | _ => false

/-- The machines agree in what the instruction reads and not every instruction does. The parts
that the instruction does not read are not asked for. -/
structure LooksAlike (instruction : Instruction) (left right : Machine) : Prop where
  block : ∀ offset < instruction.readLength,
    left.memory.read (left.index.toNat + offset) = right.memory.read (left.index.toNat + offset)
  delay : instruction.readsDelay = true → left.delay = right.delay
  keypad : instruction.readsKeys = true → left.keypad = right.keypad
  byte : instruction.takesEntropy = true → left.entropy.next.1 = right.entropy.next.1

end Instruction

namespace Machine

/-- The machines agree in what every step may read. The cadence is left out of the configuration,
since no step asks who counts the timers down. -/
structure SameCourse (left right : Machine) : Prop where
  policy : left.config.unknown = right.config.unknown
  opcode : left.opcode = right.opcode
  registers : left.registers = right.registers
  index : left.index = right.index
  counter : left.counter = right.counter
  stack : left.stack = right.stack
  screen : left.screen = right.screen
  status : left.status = right.status

/-- Of two machines and the two that they lead to: the latter are on the same course, and whatever
else the former agreed in the latter agree in. Memory is compared address by address, so that
machines that differ in some bytes are covered. -/
structure GoesAlike (left right leftNext rightNext : Machine) : Prop where
  course : leftNext.SameCourse rightNext
  memory : ∀ address, left.memory.read address = right.memory.read address →
    leftNext.memory.read address = rightNext.memory.read address
  delay : left.config.cadence = right.config.cadence → left.delay = right.delay →
    leftNext.delay = rightNext.delay
  sound : left.config.cadence = right.config.cadence → left.sound = right.sound →
    leftNext.sound = rightNext.sound
  keypad : left.keypad = right.keypad → leftNext.keypad = rightNext.keypad

/-- What is changed beside the course leaves a machine on it. -/
theorem sameCourse_beside (machine : Machine) (config : Config)
    (policy : machine.config.unknown = config.unknown) (memory : Memory)
    (delay sound : Countdown) (keypad : Keypad) (entropy : Entropy) :
    machine.SameCourse { machine with config, memory, delay, sound, keypad, entropy } :=
  ⟨policy, rfl, rfl, rfl, rfl, rfl, rfl, rfl⟩

/-- Memories that agreed throughout still do, since they agree at each address. -/
theorem GoesAlike.memory_eq {left right leftNext rightNext : Machine}
    (alike : GoesAlike left right leftNext rightNext) (same : left.memory = right.memory) :
    leftNext.memory = rightNext.memory :=
  Memory.ext_read _ _ fun address _ => alike.memory address (by rw [same])

/-- Machines on the same course that agree in everything beside it are the same. There is no
component that neither part names. -/
theorem eq_of_sameCourse (left right : Machine) (course : left.SameCourse right)
    (config : left.config = right.config) (memory : left.memory = right.memory)
    (delay : left.delay = right.delay) (sound : left.sound = right.sound)
    (keypad : left.keypad = right.keypad) (entropy : left.entropy = right.entropy) :
    left = right := by
  cases left
  cases right
  simp only [mk.injEq]
  exact ⟨config, course.opcode, memory, course.registers, course.index, course.counter,
    course.stack, delay, sound, course.screen, keypad, course.status, entropy⟩

/-- Machines on the same course are active together, as this is a matter of the status. -/
theorem SameCourse.active {left right : Machine} (course : left.SameCourse right)
    (active : left.Active) : right.Active := fun fault => course.status ▸ active fault

/-- Machines on the same course stand inside memory together, as this is a matter of the counter.
-/
theorem SameCourse.inMemory_iff {left right : Machine} (course : left.SameCourse right) :
    left.InMemory ↔ right.InMemory := by
  rw [InMemory, InMemory, course.counter]

/-- Machines on the same course that stay as they are agree in what they agreed in. -/
theorem goesAlike_of_sameCourse (left right : Machine) (course : left.SameCourse right) :
    GoesAlike left right left right :=
  ⟨course, fun _ => id, fun _ => id, fun _ => id, id⟩

/-- An instruction takes machines that agree in what it reads along the same course. Components of
the course are the same, so they are put for each other first. Then a case per instruction
remains, and most of them read nothing else. -/
theorem execute_of_looksAlike (left right : Machine) (course : left.SameCourse right)
    (instruction : Instruction) (looks : instruction.LooksAlike left right) (effect : Effect)
    (executed : left.execute instruction = .ok effect) :
    ∃ other, right.execute instruction = .ok other ∧ other.flow = effect.flow ∧
      other.signal = effect.signal ∧ other.remarks = effect.remarks ∧
      effect.machine.SameCourse other.machine := by
  obtain ⟨policy, sameOpcode, sameRegisters, sameIndex, sameCounter, sameStack, sameScreen,
    sameStatus⟩ := course
  obtain ⟨block, sameDelay, sameKeypad, sameByte⟩ := looks
  obtain ⟨config, opcode, memory, registers, index, counter, stack, delay, sound, screen, keypad,
    status, entropy⟩ := right
  dsimp only at *
  subst sameOpcode sameRegisters sameIndex sameCounter sameStack sameScreen sameStatus
  cases instruction <;> simp only [execute] at executed ⊢
  -- Where the right machine reads what is not on the course, that is the same as on the left;
  -- then the effects differ beside the course at most.
  case' returnFromCall | call target =>
    split at executed
    · contradiction
  case' skipIfPressed x | skipUnlessPressed x => cases sameKeypad rfl
  case' readDelay x => cases sameDelay rfl
  case' random x mask => rw [← sameByte rfl]
  case' draw x y height =>
    simp only [draw, ← Memory.readBlock_congr left.memory memory _ height block]
  case' loadRegisters x =>
    simp only [← Memory.readBlock_congr left.memory memory _ (x + 1) block]
  case awaitKey x =>
    cases sameKeypad rfl
    cases executed
    simp only [awaitKey]
    split <;>
      · refine ⟨_, rfl, rfl, rfl, rfl, sameCourse_beside _ _ ?_ _ _ _ _ _⟩
        exact policy
  all_goals
    cases executed
    refine ⟨_, rfl, rfl, rfl, rfl, sameCourse_beside _ _ ?_ _ _ _ _ _⟩
    exact policy

/-- What an instruction stores on the same course does not part memories that agree. Both machines
write the same bytes to the same addresses, so an address that they agreed at is overwritten alike
or left alone. -/
theorem memory_of_sameCourse (left right : Machine) (course : left.SameCourse right)
    (instruction : Instruction) (effect other : Effect)
    (executed : left.execute instruction = .ok effect)
    (alsoExecuted : right.execute instruction = .ok other) (address : Nat)
    (agree : left.memory.read address = right.memory.read address) :
    effect.machine.memory.read address = other.machine.memory.read address := by
  cases stores : instruction.storesMemory with
  | false =>
    rw [(confined_of_execute left instruction effect executed).memory stores,
      (confined_of_execute right instruction other alsoExecuted).memory stores]
    exact agree
  | true =>
    cases instruction <;> simp only [Instruction.storesMemory, Bool.false_eq_true] at stores
    case storeDigits x | storeRegisters x =>
      cases executed
      cases alsoExecuted
      simp only [course.registers, course.index]
      exact Memory.read_writeBlock_congr _ _ _ _ address agree

/-- What an instruction starts on the same course does not part timers that agree. A timer is
started at a register, which is the same for both. -/
theorem timers_of_sameCourse (left right : Machine) (course : left.SameCourse right)
    (instruction : Instruction) (effect other : Effect)
    (executed : left.execute instruction = .ok effect)
    (alsoExecuted : right.execute instruction = .ok other) :
    (left.delay = right.delay → effect.machine.delay = other.machine.delay) ∧
      (left.sound = right.sound → effect.machine.sound = other.machine.sound) := by
  cases starts : instruction.startsTimer with
  | false =>
    obtain ⟨delay, sound⟩ := (confined_of_execute left instruction effect executed).timers starts
    obtain ⟨otherDelay, otherSound⟩ :=
      (confined_of_execute right instruction other alsoExecuted).timers starts
    rw [delay, sound, otherDelay, otherSound]
    exact ⟨id, id⟩
  | true =>
    cases instruction <;> simp only [Instruction.startsTimer, Bool.false_eq_true] at starts
    case startDelay x | startSound x =>
      cases executed
      cases alsoExecuted
      simp only [course.registers]
      exact ⟨fun same => by simp only [same], fun same => by simp only [same]⟩

/-- An instruction that reads the same in machines on the same course has effects on them that
differ in nothing but what the machines differed in. The course, the memory and the timers have
laws of their own, and no instruction changes the keys. -/
theorem goesAlike_of_looksAlike (left right : Machine) (course : left.SameCourse right)
    (instruction : Instruction) (looks : instruction.LooksAlike left right) (effect : Effect)
    (executed : left.execute instruction = .ok effect) :
    ∃ other, right.execute instruction = .ok other ∧ other.flow = effect.flow ∧
      other.signal = effect.signal ∧ other.remarks = effect.remarks ∧
      GoesAlike left right effect.machine other.machine := by
  obtain ⟨other, alsoExecuted, flow, signal, remarks, along⟩ :=
    execute_of_looksAlike left right course instruction looks effect executed
  obtain ⟨delay, sound⟩ :=
    timers_of_sameCourse left right course instruction effect other executed alsoExecuted
  refine ⟨other, alsoExecuted, flow, signal, remarks, along, ?_, fun _ => delay, fun _ => sound, ?_⟩
  · exact memory_of_sameCourse left right course instruction effect other executed alsoExecuted
  · rw [(confined_of_execute left instruction effect executed).keypad,
      (confined_of_execute right instruction other alsoExecuted).keypad]
    exact id

/-- Finishing a step moves both counters alike, and timers that are counted down by the same side
alike. The cadence is asked about only here. -/
theorem goesAlike_complete (left right : Machine) (effect other : Effect)
    (config : effect.machine.config = left.config)
    (otherConfig : other.machine.config = right.config) (flow : other.flow = effect.flow)
    (alike : GoesAlike left right effect.machine other.machine) (events otherEvents : List Event) :
    GoesAlike left right (effect.complete events).machine (other.complete otherEvents).machine := by
  have course := alike.course
  rw [Effect.machine_complete, Effect.machine_complete]
  refine ⟨⟨course.policy, course.opcode, course.registers, course.index, ?_, course.stack,
    course.screen, course.status⟩, alike.memory, fun cadence same => ?_, fun cadence same => ?_,
    alike.keypad⟩
  · simp only [flow, course.counter]
  · simp only [config, otherConfig, cadence, alike.delay cadence same]
  · simp only [config, otherConfig, cadence, alike.sound cadence same]

/-- Machines that fail in the same way stay on the same course, since a failure changes nothing
but the status. -/
theorem goesAlike_fail (left right : Machine) (course : left.SameCourse right) (fault : Fault)
    (events otherEvents : List Event) :
    GoesAlike left right (left.fail fault events).machine
      (right.fail fault otherEvents).machine where
  course := ⟨course.policy, course.opcode, course.registers, course.index, course.counter,
    course.stack, course.screen, rfl⟩
  memory := fun _ => id
  delay := fun _ => id
  sound := fun _ => id
  keypad := id

/-- Behind the fetch of the same word machines are on the course that they were on. -/
theorem sameCourse_fetched (left right : Machine) (course : left.SameCourse right)
    (word : left.nextWord = right.nextWord) : left.fetched.SameCourse right.fetched :=
  ⟨course.policy, word, course.registers, course.index, course.counter, course.stack,
    course.screen, course.status⟩

/-- A fetch touches nothing that two machines could agree in beside their course. -/
theorem goesAlike_of_fetched (left right leftNext rightNext : Machine)
    (alike : GoesAlike left.fetched right.fetched leftNext rightNext) :
    GoesAlike left right leftNext rightNext :=
  ⟨alike.course, alike.memory, alike.delay, alike.sound, alike.keypad⟩

/-- The next step comes to the instruction. Whether it can be executed is left open. -/
structure Meets (machine : Machine) (instruction : Instruction) : Prop where
  active : machine.Active
  inside : machine.InMemory
  decoded : Instruction.decodeUnder machine.config.unknown machine.nextWord =
    .ok (some instruction)

/-- Machines on the same course that stand at the same word come to the same instruction. -/
theorem SameCourse.meets {left right : Machine} (course : left.SameCourse right)
    (word : left.nextWord = right.nextWord) (instruction : Instruction)
    (meets : left.Meets instruction) : right.Meets instruction := by
  refine ⟨course.active meets.active, course.inMemory_iff.mp meets.inside, ?_⟩
  rw [← course.policy, ← word]
  exact meets.decoded

/-- The next step fetches a word. It is computed, so that what a step reads can be listed. -/
def fetches (machine : Machine) : Bool :=
  match machine.status with
  | .halted _ => false
  | _ => decide machine.InMemory

/-- The instruction that the next step comes to, if it comes to one. -/
def instruction? (machine : Machine) : Option Instruction :=
  if machine.fetches then
    match machine.fetched.decoded with
    | .ok found => found
    | .error _ => none
  else none

/-- A word is fetched inside memory unless the machine has halted. -/
theorem fetches_iff (machine : Machine) :
    machine.fetches = true ↔ machine.Active ∧ machine.InMemory := by
  cases status : machine.status <;> simp [fetches, Active, status]

/-- The instruction that a step comes to is that of the word that it fetches. This connects what
is computed with what the cases of a step have as their conditions. -/
theorem instruction?_eq_some_iff (machine : Machine) (instruction : Instruction) :
    machine.instruction? = some instruction ↔ machine.Meets instruction := by
  have meaning : machine.fetched.decoded =
      Instruction.decodeUnder machine.config.unknown machine.nextWord := rfl
  rw [instruction?, meaning]
  constructor
  · intro found
    split at found
    · next fetches =>
      obtain ⟨active, inside⟩ := (fetches_iff machine).mp fetches
      refine ⟨active, inside, ?_⟩
      split at found
      · next decoded => rw [decoded, found]
      · contradiction
    · contradiction
  · rintro ⟨active, inside, decoded⟩
    rw [if_pos ((fetches_iff machine).mpr ⟨active, inside⟩), decoded]

/-- The machines agree in everything that the next step of the first one reads. What it reads
depends on the machine, so each part is asked for only where the step comes to it. -/
structure LooksAlike (left right : Machine) : Prop where
  course : left.SameCourse right
  word : left.Active → left.InMemory → left.nextWord = right.nextWord
  instruction : ∀ instruction, left.Meets instruction → instruction.LooksAlike left right

/-- Machines that agree in everything that their next step reads answer and report the same, and
whatever else they agree in they still agree in behind it. The second machine meets the conditions
of the case that the first one is in; in the case of an executed instruction, the instruction
reads the same in both. -/
theorem step_of_looksAlike (left right : Machine) (looks : left.LooksAlike right) :
    right.step.result = left.step.result ∧ right.step.events = left.step.events ∧
      GoesAlike left right left.step.machine right.step.machine := by
  obtain ⟨course, sameWord, sameBeside⟩ := looks
  have sameInside := course.inMemory_iff
  have taken := left.transition_step
  generalize left.step = stepped at taken ⊢
  -- The right machine takes the transition that the left one takes.
  cases taken with
  | halted fault stopped =>
    rw [step_of_halted right fault (course.status ▸ stopped)]
    exact ⟨rfl, rfl, goesAlike_of_sameCourse left right course⟩
  | overran active outside =>
    rw [step_eq_of_transition right _
      (.overran (course.active active) (fun inside => outside (sameInside.mpr inside))),
      ← course.counter]
    refine ⟨rfl, ?_, goesAlike_fail left right course _ _ _⟩
    simp only [fail, course.counter]
  | refused cause active inside unknown =>
    have word := sameWord active inside
    have fetched := sameCourse_fetched left right course word
    rw [course.policy, word] at unknown
    rw [step_eq_of_transition right _
      (.refused cause (course.active active) (sameInside.mp inside) unknown)]
    refine ⟨rfl, ?_, goesAlike_of_fetched _ _ _ _ (goesAlike_fail _ _ fetched _ _ _)⟩
    simp only [fail, fetched.counter]
  | skipped active inside unknown =>
    have word := sameWord active inside
    have fetched := sameCourse_fetched left right course word
    rw [course.policy, word] at unknown
    rw [step_eq_of_transition right _
      (.skipped (course.active active) (sameInside.mp inside) unknown)]
    have alike := goesAlike_complete left.fetched right.fetched { machine := left.fetched }
      { machine := right.fetched } rfl rfl rfl (goesAlike_of_sameCourse _ _ fetched)
    refine ⟨rfl, ?_, goesAlike_of_fetched _ _ _ _ (alike _ _)⟩
    simp only [Effect.complete, word, course.counter]
  | failed instruction cause active inside decoded unable =>
    have word := sameWord active inside
    have fetched := sameCourse_fetched left right course word
    rw [execute_eq_error_iff, fetched.stack, ← execute_eq_error_iff] at unable
    rw [course.policy, word] at decoded
    rw [step_eq_of_transition right _
      (.failed instruction cause (course.active active) (sameInside.mp inside) decoded unable)]
    refine ⟨rfl, ?_, goesAlike_of_fetched _ _ _ _ (goesAlike_fail _ _ fetched _ _ _)⟩
    simp only [fail, fetched.counter, word, course.counter]
  | executed instruction effect active inside decoded done =>
    have word := sameWord active inside
    have fetched := sameCourse_fetched left right course word
    have beside := sameBeside instruction ⟨active, inside, decoded⟩
    obtain ⟨other, alsoDone, flow, signal, remarks, alike⟩ :=
      goesAlike_of_looksAlike left.fetched right.fetched fetched instruction
        ⟨beside.block, beside.delay, beside.keypad, beside.byte⟩ effect done
    rw [course.policy, word] at decoded
    rw [step_eq_of_transition right _
      (.executed instruction other (course.active active) (sameInside.mp inside) decoded alsoDone)]
    have finished := goesAlike_complete left.fetched right.fetched effect other
      (confined_of_execute _ _ _ done).config (confined_of_execute _ _ _ alsoDone).config flow alike
    refine ⟨?_, ?_, goesAlike_of_fetched _ _ _ _ (finished _ _)⟩
    · simp only [Effect.complete, signal]
    · simp only [Effect.complete, remarks, word, course.counter]

/-- Machines whose cores are kept stay on the same course, as the course is a part of the core. -/
theorem sameCourse_of_sameCore (left right leftNext rightNext : Machine)
    (course : left.SameCourse right) (kept : leftNext.SameCore left)
    (otherKept : rightNext.SameCore right) : leftNext.SameCourse rightNext := by
  constructor
  · rw [kept.config, otherKept.config]
    exact course.policy
  · rw [kept.opcode, otherKept.opcode]
    exact course.opcode
  · rw [kept.registers, otherKept.registers]
    exact course.registers
  · rw [kept.index, otherKept.index]
    exact course.index
  · rw [kept.counter, otherKept.counter]
    exact course.counter
  · rw [kept.stack, otherKept.stack]
    exact course.stack
  · rw [kept.screen, otherKept.screen]
    exact course.screen
  · rw [kept.status, otherKept.status]
    exact course.status

/-- A passive request is answered alike by every machine, and what two machines on the same course
agree in they still agree in behind it. Whether a program or a key is refused depends on the
request alone. -/
theorem obey_of_passive (left right : Machine) (course : left.SameCourse right)
    (command : Command) (passive : command.isPassive = true) :
    (right.obey command).reply = (left.obey command).reply ∧
      (right.obey command).events = (left.obey command).events ∧
      GoesAlike left right (left.obey command).machine (right.obey command).machine := by
  have along := sameCourse_of_sameCore left right _ _ course (sameCore_obey left command passive)
    (sameCore_obey right command passive)
  cases command with
  | step => contradiction
  | reset => contradiction
  | load program =>
    by_cases fits : program.length ≤ Memory.programCapacity <;>
      simp only [obey, load, fits, if_true, if_false, true_and] at along ⊢
    · exact ⟨along, Memory.read_writeBlock_congr _ _ _ _, fun _ => id, fun _ => id, id⟩
    · exact goesAlike_of_sameCourse left right course
  | setKey key pressed =>
    by_cases inside : key < Keypad.count <;>
      simp only [obey, setKey, Keypad.set, inside, dif_pos, dif_neg, true_and, not_false_eq_true]
        at along ⊢
    · exact ⟨along, fun _ => id, fun _ => id, fun _ => id, fun same => by simp only [same]⟩
    · exact goesAlike_of_sameCourse left right course
  | tick =>
    exact ⟨rfl, rfl, along, fun _ => id, fun _ same => congrArg Countdown.tick same,
      fun _ same => congrArg Countdown.tick same, id⟩
  | setKeys keypad =>
    exact ⟨rfl, rfl, along, fun _ => id, fun _ => id, fun _ => id, fun _ => rfl⟩
  | setEntropy entropy =>
    exact ⟨rfl, rfl, along, fun _ => id, fun _ => id, fun _ => id, id⟩

/-- Machines on the same course answer and report the same to the same command, if it is no step
or if they agree in everything that the step reads; and whatever else they agree in they still
agree in behind it. It is the one law from which all comparisons of two runs are derived. -/
theorem obey_of_looksAlike (left right : Machine) (course : left.SameCourse right)
    (command : Command) (looks : command = .step → left.LooksAlike right) :
    (right.obey command).reply = (left.obey command).reply ∧
      (right.obey command).events = (left.obey command).events ∧
      GoesAlike left right (left.obey command).machine (right.obey command).machine := by
  rcases command.step_or_reset_or_passive with rfl | rfl | passive
  · obtain ⟨result, events, alike⟩ := step_of_looksAlike left right (looks rfl)
    exact ⟨congrArg Reply.stepped result, events, alike⟩
  · exact ⟨rfl, rfl, ⟨course.policy, rfl, rfl, rfl, rfl, rfl, rfl, rfl⟩, fun _ _ => rfl,
      fun _ _ => rfl, fun _ _ => rfl, fun _ => rfl⟩
  · exact obey_of_passive left right course command passive

end Machine

end Chip8
