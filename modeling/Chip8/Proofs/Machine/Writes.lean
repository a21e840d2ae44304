import Chip8.Proofs.Machine.Burst
import Chip8.Proofs.Machine.KeyWait
import Chip8.Proofs.Machine.Randomness
import Chip8.Proofs.Machine.Timers

/-!
# What a step writes

Which components a successful step may change is a fact about the word that it comes
to, under either policy and whatever the machine holds: each word has its own addresses,
registers and other components, and everything else is as it was. The addresses wrap at
the end of memory. A screen is changed only by a step that says so, and the two kinds of
words that say so are known in advance; so is the one kind of word that may wait.

The cadence adds to this and takes nothing away. Where the machine counts down itself,
it is the same step with one tick of both timers behind it.
-/

namespace Chip8

namespace Opcode

/-- How many bytes from the index register on the word stores. Only two kinds of words store at
all: three digits, or the registers up to the operand. -/
def storeLength (opcode : Opcode) : Nat :=
  if opcode.IsTransfer 0x33 then 3
  else if opcode.IsTransfer 0x55 then opcode.first + 1
  else 0

/-- The word may change the register that its first operand names. Whether it does may depend on
the values; a wait changes it only when a key is pressed. -/
def SetsFirst (opcode : Opcode) : Prop :=
  opcode.group ∈ [0x6, 0x7, 0xC] ∨
    opcode.group = 0x8 ∧ opcode.nibble ∈ [0x0, 0x1, 0x2, 0x3, 0x4, 0x5, 0x6, 0x7, 0xE] ∨
    opcode.IsTransfer 0x07 ∨ opcode.IsTransfer 0x0A ∨ opcode.IsTransfer 0x65

/-- The word may change the flag, whatever its first operand is. These are the operations with a
carry, a borrow or a bit that falls out, and drawing. -/
def SetsFlag (opcode : Opcode) : Prop :=
  opcode.group = 0x8 ∧ opcode.nibble ∈ [0x4, 0x5, 0x6, 0x7, 0xE] ∨ opcode.group = 0xD

/-- The word may change the register of a number: as its first operand, as the flag, or as one of
those that are loaded from memory. -/
def SetsRegister (opcode : Opcode) (number : Nat) : Prop :=
  opcode.SetsFirst ∧ number = opcode.first ∨ opcode.SetsFlag ∧ number = Registers.flag ∨
    opcode.IsTransfer 0x65 ∧ number ≤ opcode.first

/-- The word may change the index register. -/
def SetsIndex (opcode : Opcode) : Prop :=
  opcode.group = 0xA ∨ opcode.IsTransfer 0x1E ∨ opcode.IsTransfer 0x29

instance (opcode : Opcode) : Decidable opcode.SetsFirst :=
  inferInstanceAs (Decidable (_ ∨ _ ∧ _ ∨ _ ∨ _ ∨ _))

instance (opcode : Opcode) : Decidable opcode.SetsFlag :=
  inferInstanceAs (Decidable (_ ∧ _ ∨ _))

instance (opcode : Opcode) (number : Nat) : Decidable (opcode.SetsRegister number) :=
  inferInstanceAs (Decidable (_ ∧ _ ∨ _ ∧ _ ∨ _ ∧ _))

instance (opcode : Opcode) : Decidable opcode.SetsIndex :=
  inferInstanceAs (Decidable (_ ∨ _ ∨ _))

/-- From one machine to another nothing changes but what the word may change. The screen, the
counter and the latest word are not spoken of. Each field says what the word would have to be for
its component to change, so whoever knows the word can read off what is kept. -/
structure Confines (word : Opcode) (before after : Machine) : Prop where
  config : after.config = before.config
  memory : ∀ address < Memory.capacity,
    (∀ offset < word.storeLength, address ≠ (before.index.toNat + offset) % Memory.capacity) →
      after.memory.read address = before.memory.read address
  registers : ∀ number < Registers.count, ¬word.SetsRegister number →
    after.registers.read number = before.registers.read number
  index : ¬word.SetsIndex → after.index = before.index
  stack : word.group ≠ 0x2 → word ≠ 0x00EE → after.stack = before.stack
  delay : ¬word.IsTransfer 0x15 → after.delay = before.delay
  sound : ¬word.IsTransfer 0x18 → after.sound = before.sound
  keypad : after.keypad = before.keypad
  status : ¬word.IsTransfer 0x0A → after.status = before.status
  entropy : word.group ≠ 0xC → after.entropy = before.entropy

end Opcode

/-- A block of bytes is written to its addresses only. Nothing is asked of its length: the
addresses are followed one at a time, wrapped at the end of memory. -/
theorem Memory.read_writeBlock_elsewhere (memory : Memory) (start : Nat) (bytes : List UInt8)
    (address : Nat) (inside : address < capacity)
    (elsewhere : ∀ offset < bytes.length, address ≠ (start + offset) % capacity) :
    (memory.writeBlock start bytes).read address = memory.read address := by
  induction bytes generalizing memory start with
  | nil => rfl
  | cons byte rest inductionHypothesis =>
    have here : address ≠ start % capacity := elsewhere 0 (Nat.zero_lt_succ _)
    rw [writeBlock, inductionHypothesis, read_write, Nat.mod_eq_of_lt inside,
      if_neg (Ne.symm here)]
    intro offset within
    rw [Nat.add_right_comm]
    exact elsewhere (offset + 1) (Nat.succ_lt_succ within)

namespace Registers

/-- A register that is not written keeps its value. -/
theorem read_write_of_ne (registers : Registers) (number other : Nat) (value : UInt8)
    (inside : number < count) (otherInside : other < count) (apart : other ≠ number) :
    (registers.write number value).read other = registers.read other := by
  rw [read_write, Nat.mod_eq_of_lt inside, Nat.mod_eq_of_lt otherInside, if_neg (Ne.symm apart)]

/-- An operation changes its target, and the flag if it has one. The operations without a flag are
told from the others by their nibbles, as they are in the word. -/
theorem read_combine_of_ne (registers : Registers) (operation : ArithmeticOperation)
    (x y number : Nat) (target : x < count) (inside : number < count) (apart : number ≠ x)
    (unflagged : operation.nibble ∈ [0x4, 0x5, 0x6, 0x7, 0xE] → number ≠ flag) :
    (registers.combine operation x y).read number = registers.read number := by
  cases operation <;> simp only [combine]
  case assign | or | and | xor => exact read_write_of_ne _ _ _ _ target inside apart
  case add =>
    rw [read_write_of_ne _ _ _ _ (by decide) inside (unflagged (by decide)),
      read_write_of_ne _ _ _ _ target inside apart]
  all_goals
    rw [read_write_of_ne _ _ _ _ target inside apart,
      read_write_of_ne _ _ _ _ (by decide) inside (unflagged (by decide))]

end Registers

namespace Machine

section

variable (machine : Machine) (instruction : Instruction) (effect : Effect) {word : Opcode}
  (read : Instruction.ReadFrom word (some instruction))
  (executed : machine.execute instruction = .ok effect)

include read executed

/-- An instruction stores bytes at the addresses of its word only. Most instructions are known to
store nothing; for the two that do, the block has the length that the word says. -/
theorem memory_of_execute (address : Nat) (inside : address < Memory.capacity)
    (elsewhere : ∀ offset < word.storeLength,
      address ≠ (machine.index.toNat + offset) % Memory.capacity) :
    effect.machine.memory.read address = machine.memory.read address := by
  cases stores : instruction.storesMemory with
  | false => rw [(confined_of_execute _ _ _ executed).memory stores]
  | true =>
    cases read <;> simp only [Instruction.storesMemory, Bool.false_eq_true] at stores
    case storeDigits selected =>
      cases executed
      apply Memory.read_writeBlock_elsewhere _ _ _ _ inside
      intro offset within
      apply elsewhere
      rw [Opcode.storeLength, if_pos selected]
      exact within
    case storeRegisters selected =>
      cases executed
      apply Memory.read_writeBlock_elsewhere _ _ _ _ inside
      intro offset within
      apply elsewhere
      have other : ¬word.IsTransfer 0x33 := by
        rintro ⟨_, digits⟩
        exact absurd (selected.2.symm.trans digits) (by decide)
      rw [Opcode.storeLength, if_neg other, if_pos selected, ← machine.registers.length_upTo]
      exact within

/-- An instruction changes the registers of its word only. The cases are the ways to read a word;
where a register is written, being spared by the word means to be another one. -/
theorem registers_of_execute (number : Nat) (inside : number < Registers.count)
    (spared : ¬word.SetsRegister number) :
    effect.machine.registers.read number = machine.registers.read number := by
  have target := word.first_lt
  cases read <;> simp only [execute] at executed
  case returnFromCall | call =>
    split at executed
    · contradiction
    · cases executed
      rfl
  case loadValue group | addValue group | random group =>
    cases executed
    apply Registers.read_write_of_ne _ _ _ _ target inside
    rintro rfl
    exact spared (.inl ⟨.inl (by simp [group]), rfl⟩)
  case readDelay selected =>
    cases executed
    apply Registers.read_write_of_ne _ _ _ _ target inside
    rintro rfl
    exact spared (.inl ⟨.inr (.inr (.inl selected)), rfl⟩)
  case awaitKey selected =>
    cases executed
    unfold awaitKey
    split
    · apply Registers.read_write_of_ne _ _ _ _ target inside
      rintro rfl
      exact spared (.inl ⟨.inr (.inr (.inr (.inl selected))), rfl⟩)
    · rfl
  case arithmetic operation group selected =>
    cases executed
    apply Registers.read_combine_of_ne _ _ _ _ _ target inside
    · rintro rfl
      refine spared (.inl ⟨.inr (.inl ⟨group, ?_⟩), rfl⟩)
      rw [selected]
      cases operation <;> decide
    · rintro flagged rfl
      exact spared (.inr (.inl ⟨.inl ⟨group, selected ▸ flagged⟩, rfl⟩))
  case draw group =>
    cases executed
    apply Registers.read_write_of_ne _ _ _ _ (by decide) inside
    rintro rfl
    exact spared (.inr (.inl ⟨.inr group, rfl⟩))
  case loadRegisters selected =>
    cases executed
    have behind : word.first < number :=
      Nat.lt_of_not_le fun within => spared (.inr (.inr ⟨selected, within⟩))
    rw [Registers.read_writeFrom _ _ _ _ (by rw [Memory.length_readBlock]; omega) inside,
      if_pos (Nat.zero_le number), List.getElem?_eq_none (by rw [Memory.length_readBlock]; omega),
      Option.getD_none]
  all_goals
    cases executed
    rfl

/-- An instruction changes the index register under its words only. There are three of them, and
the effects of the others do not mention it. -/
theorem index_of_execute (spared : ¬word.SetsIndex) :
    effect.machine.index = machine.index := by
  cases read <;> simp only [execute] at executed
  case returnFromCall | call =>
    split at executed
    · contradiction
    · cases executed
      rfl
  case awaitKey =>
    cases executed
    unfold awaitKey
    split <;> rfl
  case loadIndex group => exact absurd (.inl group) spared
  case advanceIndex selected => exact absurd (.inr (.inl selected)) spared
  case pointAtGlyph selected => exact absurd (.inr (.inr selected)) spared
  all_goals
    cases executed
    rfl

/-- An instruction changes only what its word may change. Memory, registers and index register
have been dealt with, the timers have a law of their own, and what remains follows from what kind
of instruction the word is. -/
theorem confines_of_execute : word.Confines machine effect.machine := by
  have confined := confined_of_execute _ _ _ executed
  have timers := timer_of_perform machine read effect executed
  refine ⟨confined.config, memory_of_execute _ _ _ read executed,
    registers_of_execute _ _ _ read executed, index_of_execute _ _ _ read executed, ?_, ?_, ?_,
    confined.keypad, ?_, ?_⟩
  · intro notCall notReturn
    apply confined.stack
    cases read <;> first | rfl | contradiction
  · intro unstarted
    exact (timers .delay).trans (if_neg unstarted)
  · intro unstarted
    exact (timers .sound).trans (if_neg unstarted)
  · intro elsewhere
    have waitless : instruction.awaitsKey = false := by
      cases read <;> first | rfl | contradiction
    exact (confined.status waitless).1
  · intro elsewhere
    apply confined.entropy
    cases read <;> first | rfl | contradiction

/-- An instruction that says that the screen may have changed clears or draws, as can be seen in
its word. -/
theorem word_of_drawn (drawn : effect.signal = .draw) : word = 0x00E0 ∨ word.group = 0xD := by
  cases read <;> simp only [execute] at executed
  case clearScreen clear => exact .inl clear
  case draw group => exact .inr group
  case returnFromCall | call =>
    split at executed
    · contradiction
    · cases executed
      contradiction
  case awaitKey =>
    cases executed
    unfold awaitKey at drawn
    split at drawn <;> contradiction
  all_goals
    cases executed
    contradiction

end

/-- The same machine, with its timers counted down by someone else. -/
def underCadence (machine : Machine) (cadence : Cadence) : Machine :=
  { machine with config := { machine.config with cadence } }

/-- No step reads who counts the timers down; the cadence only says what happens behind it. -/
theorem looksAlike_underCadence (machine : Machine) (cadence : Cadence) :
    machine.LooksAlike (machine.underCadence cadence) where
  course := sameCourse_beside machine { machine.config with cadence } rfl _ _ _ _ _
  word := fun _ _ => rfl
  instruction := fun _ _ => ⟨fun _ _ => rfl, fun _ => rfl, fun _ => rfl, fun _ => rfl⟩

/-- Where the host counts, completing an effect changes nothing but the counter. Under the other
cadence it would change the timers, which the word does not allow. -/
theorem confines_complete (machine : Machine) (word : Opcode) (effect : Effect)
    (events : List Event) (confined : word.Confines machine effect.machine)
    (hosted : machine.config.cadence = .host) :
    word.Confines machine (effect.complete events).machine := by
  rw [Effect.machine_complete, confined.config, hosted]
  exact ⟨confined.config, confined.memory, confined.registers, confined.index, confined.stack,
    confined.delay, confined.sound, confined.keypad, confined.status, confined.entropy⟩

/-- A successful step under the host cadence changes only what its word may change. A word that is
passed over changes nothing that is spoken of. -/
theorem confines_step (machine : Machine) (signal : Signal)
    (hosted : machine.config.cadence = .host) (succeeded : machine.step.result = .ok signal) :
    machine.nextWord.Confines machine machine.step.machine := by
  obtain ⟨found, effect, events, performs, _, completed⟩ :=
    performs_of_ok machine signal succeeded
  have done := performs.done
  rw [completed]
  apply confines_complete machine machine.nextWord effect events _ hosted
  cases found with
  | none =>
    cases done
    exact ⟨rfl, fun _ _ _ => rfl, fun _ _ _ => rfl, fun _ => rfl, fun _ _ => rfl, fun _ => rfl,
      fun _ => rfl, rfl, fun _ => rfl, fun _ => rfl⟩
  | some instruction =>
    have confined := confines_of_execute machine.fetched instruction effect performs.read done
    exact ⟨confined.config, confined.memory, confined.registers, confined.index, confined.stack,
      confined.delay, confined.sound, confined.keypad, confined.status, confined.entropy⟩

/-- A successful step says that the screen may have changed exactly under a word that clears or
draws. It says so whether or not a pixel is different. -/
theorem signal_eq_draw_iff (machine : Machine) (signal : Signal)
    (succeeded : machine.step.result = .ok signal) :
    signal = .draw ↔ machine.nextWord = 0x00E0 ∨ machine.nextWord.group = 0xD := by
  obtain ⟨found, effect, events, performs, signalled, _⟩ :=
    performs_of_ok machine signal succeeded
  have read := performs.read
  have done := performs.done
  rw [← signalled]
  constructor
  · intro drawn
    cases found with
    | none =>
      cases done
      contradiction
    | some instruction => exact word_of_drawn _ _ _ read done drawn
  · rintro (clear | group)
    · cases read.unique (.clearScreen clear)
      cases done
      rfl
    · cases read.unique (.draw group)
      cases done
      rfl

/-- The word of the wait inside memory is a wait for its first operand, which ties the fields of
the word to its number. -/
theorem standsAtWait_of_isTransfer (machine : Machine) (inside : machine.InMemory)
    (selected : machine.nextWord.IsTransfer 0x0A) :
    machine.StandsAtWait machine.nextWord.first := by
  obtain ⟨group, byte⟩ := selected
  obtain ⟨whole, lower, _⟩ := Instruction.fields_recompose machine.nextWord
  have selector : machine.nextWord.byte.toNat = 0x0A := by rw [byte]; rfl
  exact ⟨inside, machine.nextWord.first_lt, by omega⟩

/-- A successful step waits exactly under the word of the wait without a pressed key, whatever its
status was before. -/
theorem signal_eq_wait_iff (machine : Machine) (signal : Signal)
    (succeeded : machine.step.result = .ok signal) :
    signal = .wait ↔
      machine.nextWord.IsTransfer 0x0A ∧ machine.keypad.lowestPressed = none := by
  obtain ⟨active, inside⟩ := inMemory_of_ok machine signal succeeded
  constructor
  · rintro rfl
    obtain ⟨_, released, register, stands⟩ := standsAtWait_of_wait machine succeeded
    have decoded := (Instruction.decodeUnder_awaitKey_iff machine.config.unknown _ _).mpr
      ⟨stands.exists_register, stands.word⟩
    cases Instruction.readFrom_of_decodeUnder _ _ _ decoded with
    | awaitKey selected => exact ⟨selected, released⟩
  · rintro ⟨selected, released⟩
    have stands := standsAtWait_of_isTransfer machine inside selected
    rw [(step_of_released machine _ active stands released).1] at succeeded
    exact (Except.ok.inj succeeded).symm

/-- A step that succeeds under either cadence succeeds under the other, and where the machine
counts down itself there is one tick of both timers more. Neither step reads the cadence, so all
else is the same in both; the timers follow from their law. -/
theorem step_underCadence (machine : Machine) (signal : Signal)
    (succeeded : machine.step.result = .ok signal) :
    let hosted := (machine.underCadence .host).step
    let clocked := (machine.underCadence .instruction).step
    hosted.result = .ok signal ∧ clocked.result = .ok signal ∧
      clocked.machine = (hosted.machine.underCadence .instruction).tick := by
  intro hosted clocked
  have hostedResult : hosted.result = .ok signal :=
    (step_of_looksAlike _ _ (looksAlike_underCadence machine .host)).1.trans succeeded
  have clockedResult : clocked.result = .ok signal :=
    (step_of_looksAlike _ _ (looksAlike_underCadence machine .instruction)).1.trans succeeded
  have looks := looksAlike_underCadence (machine.underCadence .host) .instruction
  obtain ⟨_, _, alike⟩ := step_of_looksAlike _ _ looks
  have counted : ∀ timer, clocked.machine.timer timer = (hosted.machine.timer timer).tick := by
    intro timer
    rw [timer_step _ signal clockedResult, timer_step _ signal hostedResult]
    rfl
  refine ⟨hostedResult, clockedResult, Eq.symm ?_⟩
  have kept := alike.course
  apply eq_of_sameCourse
  · exact ⟨kept.policy, kept.opcode, kept.registers, kept.index, kept.counter, kept.stack,
      kept.screen, kept.status⟩
  · rw [config_step]
    exact congrArg (fun config => { config with cadence := .instruction }) (config_step _)
  · exact alike.memory_eq rfl
  · exact (counted .delay).symm
  · exact (counted .sound).symm
  · exact alike.keypad rfl
  · exact entropy_obey_congr _ _ .step (fun _ => looks) rfl

/-- A successful step changes what its word may change and nothing else, as long as the host
counts the timers down. Its screen is another one only if it says so, which it does exactly under
the words that clear or draw; it waits exactly under the word of the wait without a pressed key.
And if the machine counts down itself, that is one tick of both timers behind the very same step.

A word can be read in one way only, so the cases are these readings, and in each the effect is
compared with what the word may change. Doing this under the host cadence keeps the timers out of
it: there a timer changes only if its word starts it. The other cadence is then obtained by
comparison, because a step does not look at it. A step that fails is left out, as it writes at
most its status and the word that it met. -/
theorem step_writes_by_word (machine : Machine) (signal : Signal)
    (succeeded : machine.step.result = .ok signal) :
    let word := machine.nextWord
    let hosted := (machine.underCadence .host).step
    let clocked := (machine.underCadence .instruction).step
    (hosted.result = .ok signal ∧ word.Confines (machine.underCadence .host) hosted.machine ∧
        (signal ≠ .draw → hosted.machine.screen = machine.screen) ∧
        (signal = .draw ↔ word = 0x00E0 ∨ word.group = 0xD) ∧
        (signal = .wait ↔
          word.IsTransfer 0x0A ∧ ∀ key, machine.keypad.isPressed key = false)) ∧
      clocked.result = .ok signal ∧
      clocked.machine = (hosted.machine.underCadence .instruction).tick := by
  intro word hosted clocked
  obtain ⟨hostedResult, clockedResult, ticked⟩ := step_underCadence machine signal succeeded
  refine ⟨⟨hostedResult, ?_, ?_, ?_, ?_⟩, clockedResult, ticked⟩
  · exact confines_step (machine.underCadence .host) signal rfl hostedResult
  · intro undrawn
    apply screen_step (machine.underCadence .host)
    rw [hostedResult]
    exact fun drawn => undrawn (Except.ok.inj drawn)
  · exact signal_eq_draw_iff machine signal succeeded
  · rw [← Keypad.lowestPressed_eq_none_iff]
    exact signal_eq_wait_iff machine signal succeeded

/-- A machine that stores four registers from the last but one address on, with one
timer about to run out and one that has. -/
def scribe : Machine :=
  { (powerOn {} (Entropy.cycle #[])).after [.load [0xF3, 0x55]] with
    registers := ⟨#v[1, 2, 3, 4, 5, 6, 7, 8, 9, 10, 11, 12, 13, 14, 15, 16]⟩
    index := 0xFFE
    delay := ⟨1⟩ }

/-- The block goes on at the first address and ends before the third one. Counted by the
machine, the one timer runs out behind the step and the other stays where it is. -/
theorem scribe_writes :
    scribe.nextWord = 0xF355 ∧ scribe.step.result = .ok .quiet ∧
      (scribe.underCadence .host).step.machine.memory.read 0x001 = 4 ∧
      (scribe.underCadence .host).step.machine.memory.read 0x002 = scribe.memory.read 0x002 ∧
      (scribe.underCadence .host).step.machine.registers.read 0x3 = 4 ∧
      (scribe.underCadence .host).step.machine.index = 0xFFE ∧
      (scribe.underCadence .host).step.machine.delay = ⟨1⟩ ∧
      (scribe.underCadence .instruction).step.machine.delay = ⟨0⟩ ∧
      (scribe.underCadence .instruction).step.machine.sound = ⟨0⟩ := by
  obtain ⟨word, succeeded, stored⟩ :
      scribe.nextWord = 0xF355 ∧ scribe.step.result = .ok .quiet ∧
        (scribe.underCadence .host).step.machine.memory.read 0x001 = 4 := by
    decide +kernel
  obtain ⟨⟨_, confined, _⟩, _, ticked⟩ := step_writes_by_word scribe .quiet succeeded
  rw [word] at confined
  have delay : (scribe.underCadence .host).step.machine.delay = ⟨1⟩ := confined.delay (by decide)
  have sound : (scribe.underCadence .host).step.machine.sound = ⟨0⟩ := confined.sound (by decide)
  refine ⟨word, succeeded, stored, ?_, ?_, ?_, delay, ?_, ?_⟩
  · exact confined.memory 0x002 (by decide) (by decide)
  · exact confined.registers 0x3 (by decide) (by decide)
  · exact confined.index (by decide)
  · rw [ticked, tick]
    dsimp only [underCadence] at delay ⊢
    rw [delay]
    decide
  · rw [ticked, tick]
    dsimp only [underCadence] at sound ⊢
    rw [sound]
    decide

end Machine

end Chip8
