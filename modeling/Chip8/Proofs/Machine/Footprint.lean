import Chip8.Proofs.Machine.Randomness

/-!
# The footprint of a step

A step reads few bytes of memory: the two of the word at the counter, the rows of a
sprite that is drawn and the bytes that registers are loaded from. These make up its
footprint, and the footprint is exact. A byte outside of it is not seen, so machines
that differ in nothing else go through the same step and differ in nothing else behind
it. A byte inside of it is seen: it shows in the fetched word, in a register or on the
screen.

A byte that no step of a run has in its footprint is therefore no part of the run. What
an earlier and longer program left behind a program matters only where it is fetched,
drawn or loaded.
-/

namespace Chip8

/-- The addresses of a block, wrapped at the end of memory. -/
def Memory.addresses (start length : Nat) : List Nat :=
  (List.range length).map fun offset => (start + offset) % capacity

/-- An address lies in a block at one of its offsets. -/
theorem Memory.mem_addresses (start length address : Nat) :
    address ∈ addresses start length ↔
      ∃ offset < length, (start + offset) % capacity = address := by
  simp only [addresses, List.mem_map, List.mem_range]

namespace Machine

/-- The addresses of the bytes that the next step reads: none for a machine that has halted or
stands outside of memory, and otherwise the word and what its instruction asks for. -/
def footprint (machine : Machine) : List Nat :=
  (if machine.fetches then Memory.addresses machine.counter.toNat Opcode.size else []) ++
    match machine.instruction? with
    | some instruction => Memory.addresses machine.index.toNat instruction.readLength
    | none => []

/-- The next step reads the byte at an address, wrapped or not. -/
def Reads (machine : Machine) (address : Nat) : Prop :=
  address % Memory.capacity ∈ machine.footprint

instance (machine : Machine) (address : Nat) : Decidable (machine.Reads address) :=
  inferInstanceAs (Decidable (_ ∈ _))

/-- The bytes of the word are read where it is fetched, and those of a block where its instruction
is met. So the computed list says what the conditions of a step's cases say. -/
theorem reads_iff (machine : Machine) (address : Nat) :
    machine.Reads address ↔
      (machine.Active ∧ machine.InMemory ∧ ∃ offset < Opcode.size,
        (machine.counter.toNat + offset) % Memory.capacity = address % Memory.capacity) ∨
      ∃ instruction, machine.Meets instruction ∧ ∃ offset < instruction.readLength,
        (machine.index.toNat + offset) % Memory.capacity = address % Memory.capacity := by
  rw [Reads, footprint, List.mem_append]
  apply or_congr
  · by_cases fetches : machine.fetches = true
    · obtain ⟨active, inside⟩ := (fetches_iff machine).mp fetches
      simp only [fetches, if_true, Memory.mem_addresses, active, inside, true_and]
    · rw [if_neg fetches, ← and_assoc, ← fetches_iff]
      simp only [fetches, Bool.false_eq_true, false_and, List.not_mem_nil]
  · simp only [← instruction?_eq_some_iff]
    cases machine.instruction? with
    | none => simp
    | some instruction => simp [Memory.mem_addresses]

/-- The machines differ in nothing but what the byte at an address is. Entropies count as equal if
the bytes to come are the same, since that is all that can be seen of them. -/
structure AgreeBut (left : Machine) (address : Nat) (right : Machine) : Prop where
  course : left.SameCourse right
  config : left.config = right.config
  delay : left.delay = right.delay
  sound : left.sound = right.sound
  keypad : left.keypad = right.keypad
  entropy : left.entropy.Alike right.entropy
  memory : ∀ other, other % Memory.capacity ≠ address % Memory.capacity →
    left.memory.read other = right.memory.read other

/-- Machines that differ in a byte which the step does not read agree in all that it reads. Were
one of the bytes of its word or of its block the differing one, the step would read it. -/
theorem looksAlike_of_agreeBut (left right : Machine) (address : Nat)
    (agree : left.AgreeBut address right) (unread : ¬left.Reads address) :
    left.LooksAlike right := by
  rw [reads_iff, not_or] at unread
  obtain ⟨unfetched, unblocked⟩ := unread
  refine ⟨agree.course, fun active inside => ?_, fun instruction meets =>
    ⟨fun offset within => ?_, fun _ => agree.delay, fun _ => agree.keypad,
      fun _ => agree.entropy.next_fst⟩⟩
  · have same : ∀ offset < Opcode.size,
        left.memory.read (left.counter.toNat + offset) =
          right.memory.read (left.counter.toNat + offset) := fun offset within =>
      agree.memory _ fun here => unfetched ⟨active, inside, offset, within, here⟩
    rw [nextWord, nextWord, ← agree.course.counter]
    exact congrArg₂ Opcode.ofBytes (same 0 (by decide)) (same 1 (by decide))
  · exact agree.memory _ fun here => unblocked ⟨instruction, meets, offset, within, here⟩

/-- Machines that differ in one byte answer and report the same to the same command, unless it is
a step that reads the byte, and still differ in nothing else behind it. The step writes the same
bytes in both, so no new difference appears; the old one may disappear. -/
theorem obey_of_agreeBut (left right : Machine) (address : Nat)
    (agree : left.AgreeBut address right) (command : Command)
    (unread : command = .step → ¬left.Reads address) :
    (right.obey command).reply = (left.obey command).reply ∧
      (right.obey command).events = (left.obey command).events ∧
      (left.obey command).machine.AgreeBut address (right.obey command).machine := by
  have looks : command = .step → left.LooksAlike right := fun steps =>
    looksAlike_of_agreeBut left right address agree (unread steps)
  obtain ⟨reply, events, alike⟩ := obey_of_looksAlike left right agree.course command looks
  have cadence : left.config.cadence = right.config.cadence := by rw [agree.config]
  refine ⟨reply, events, alike.course, ?_, alike.delay cadence agree.delay,
    alike.sound cadence agree.sound, alike.keypad agree.keypad, ?_, fun other elsewhere =>
      alike.memory other (agree.memory other elsewhere)⟩
  · rw [config_obey, config_obey]
    exact agree.config
  · rcases entropy_obey_of_looksAlike left right command looks with same | ⟨count, taken, other⟩
    · rw [same]
      exact fun _ => rfl
    · rw [taken, other]
      exact agree.entropy.advance count

/-- A step inside memory leaves the fetched word behind, whether it succeeds or fails. So a
difference in the word is seen. -/
theorem opcode_step (machine : Machine) (active : machine.Active) (inside : machine.InMemory) :
    machine.step.machine.opcode = machine.nextWord := by
  have taken := machine.transition_step
  generalize machine.step = stepped at taken
  cases taken with
  | halted fault stopped => exact absurd stopped (active fault)
  | overran _ outside => exact absurd inside outside
  | refused cause _ _ unknown => rfl
  | skipped _ _ unknown =>
    rw [Effect.machine_complete]
    rfl
  | failed instruction cause _ _ decoded unable => rfl
  | executed instruction effect _ _ decoded done =>
    rw [Effect.machine_complete]
    exact (confined_of_execute _ _ _ done).opcode

/-- A step that loads registers puts the bytes of its block into them. There are as many registers
as it asks for, because a decoded register number is below sixteen. -/
theorem registers_step_of_loads (machine : Machine) (x number : Nat)
    (meets : machine.Meets (.loadRegisters x)) (within : number < x + 1) :
    machine.step.machine.registers.read number =
      machine.memory.read (machine.index.toNat + number) := by
  obtain ⟨active, inside, decoded⟩ := meets
  obtain ⟨bound, _⟩ := List.forall_mem_cons.mp (Instruction.fits_of_decodeUnder _ _ _ decoded)
  have length := machine.memory.length_readBlock machine.index.toNat (x + 1)
  simp only [Operand.Fits] at bound
  rw [step_eq_of_transition machine _ (.executed _ _ active inside decoded rfl),
    Effect.machine_complete]
  change (machine.registers.writeFrom 0
    (machine.memory.readBlock machine.index.toNat (x + 1))).read number = _
  rw [Registers.read_writeFrom _ _ _ _ (by simp only [Registers.count]; omega)
      (by simp only [Registers.count]; omega),
    if_pos (Nat.zero_le number), Nat.sub_zero, List.getElem?_eq_getElem (by omega),
    Memory.getElem_readBlock]
  rfl

/-- A step that draws inverts the pixels of its sprite where the bits of its rows say so. Each of
the rows has its own pixels, so all bits of all rows can be seen on the screen. -/
theorem isLit_step_of_draws (machine : Machine) (x y height row column : Nat)
    (meets : machine.Meets (.draw x y height)) (within : row < height)
    (narrow : column < Sprite.width) :
    machine.step.machine.screen.isLit ((machine.registers.read x).toNat + column)
        ((machine.registers.read y).toNat + row) =
      (machine.screen.isLit ((machine.registers.read x).toNat + column)
        ((machine.registers.read y).toNat + row) ^^
          Sprite.covers (machine.memory.read (machine.index.toNat + row)) column) := by
  obtain ⟨active, inside, decoded⟩ := meets
  have fits := Instruction.fits_of_decodeUnder _ _ _ decoded
  have low : height < 16 := fits (.height height) (by simp [Instruction.operands])
  have length := machine.memory.length_readBlock machine.index.toNat height
  rw [step_eq_of_transition machine _ (.executed _ _ active inside decoded rfl),
    Effect.machine_complete]
  change (machine.screen.flipAll (Sprite.cells
    (machine.memory.readBlock machine.index.toNat height) (machine.registers.read x).toNat
    (machine.registers.read y).toNat)).1.isLit _ _ = _
  rw [Screen.isLit_flipAll, Sprite.countP_cells _ _ _ _ _ narrow
    (by simp only [Screen.height]; omega) (by omega), Memory.getElem_readBlock]
  cases Sprite.covers (machine.memory.read (machine.index.toNat + row)) column <;> rfl

/-- The machines look alike where a step leaves what it has read: in the word, in the registers
and on the screen. -/
structure ShowsAlike (left right : Machine) : Prop where
  opcode : left.opcode = right.opcode
  registers : left.registers = right.registers
  screen : left.screen = right.screen

/-- Machines on the same course that look alike behind a step have read the same bytes. The bytes
of the word show in the word. A block was drawn or loaded: loaded bytes show in registers, and
drawn ones bit by bit in pixels that were the same before. -/
theorem read_of_showsAlike (left right : Machine) (course : left.SameCourse right)
    (shows : left.step.machine.ShowsAlike right.step.machine) (address : Nat)
    (reads : left.Reads address) :
    left.memory.read address = right.memory.read address := by
  have sameWord : left.Active → left.InMemory → left.nextWord = right.nextWord := by
    intro active inside
    rw [← opcode_step left active inside, shows.opcode,
      opcode_step right (course.active active) (course.inMemory_iff.mp inside)]
  rcases (reads_iff left address).mp reads with
    ⟨active, inside, offset, within, here⟩ | ⟨instruction, meets, offset, within, here⟩
  · obtain ⟨high, low⟩ := (Opcode.ofBytes_inj _ _ _ _).mp (sameWord active inside)
    rw [← Memory.read_mod left.memory, ← Memory.read_mod right.memory, ← here,
      Memory.read_mod, Memory.read_mod]
    rw [← course.counter] at high low
    simp only [Opcode.size] at within
    rcases (by omega : offset = 0 ∨ offset = 1) with rfl | rfl
    · exact high
    · exact low
  · have also := course.meets (sameWord meets.active meets.inside) instruction meets
    rw [← Memory.read_mod left.memory, ← Memory.read_mod right.memory, ← here,
      Memory.read_mod, Memory.read_mod]
    cases instruction
    case draw x y height =>
      apply Sprite.ext_covers
      intro column narrow
      have drawn := isLit_step_of_draws left x y height offset column meets within narrow
      have alsoDrawn := isLit_step_of_draws right x y height offset column also within narrow
      rw [← shows.screen, ← course.screen, ← course.registers, ← course.index, drawn] at alsoDrawn
      exact Bool.xor_right_inj.mp alsoDrawn
    case loadRegisters x =>
      rw [← registers_step_of_loads left x offset meets within, shows.registers, course.index]
      exact registers_step_of_loads right x offset also within
    all_goals exact absurd within (Nat.not_lt_zero offset)

/-- A step that does not read the only byte in which two machines differ has the same outcome on
both, and they differ in nothing else behind it; a step that does read the byte shows that it
differs. And as long as no step of a history reads the byte, the machines give the same answers
and reports and differ in nothing else throughout.

The first part is the law of machines that agree in all that a step reads. The second is its
converse and makes the footprint exact: whatever is read can be recovered from what the step
leaves. The last carries the first through a history, exchange by exchange; there it has to be
asked of every step, since a step may move the footprint to the byte. The hypothesis is a start:
machines that differ elsewhere as well would have two differences to follow. -/
theorem step_sees_footprint (left right : Machine) (address : Nat)
    (agree : left.AgreeBut address right) :
    (¬left.Reads address →
      right.step.result = left.step.result ∧ right.step.events = left.step.events ∧
        left.step.machine.AgreeBut address right.step.machine) ∧
      (left.Reads address → left.memory.read address ≠ right.memory.read address →
        ¬left.step.machine.ShowsAlike right.step.machine) ∧
      ∀ history, (∀ exchange ∈ left.exchanges history, exchange.command = .step →
          ¬exchange.machine.Reads address) →
        right.replies history = left.replies history ∧
          right.reports history = left.reports history ∧
          ∀ stretch, stretch <+: history →
            (left.after stretch).AgreeBut address (right.after stretch) := by
  refine ⟨fun unread => ?_, fun reads differ shows => ?_, fun history unread => ?_⟩
  · obtain ⟨reply, events, still⟩ :=
      obey_of_agreeBut left right address agree .step fun _ => unread
    exact ⟨Reply.stepped.inj reply, events, still⟩
  · exact differ (read_of_showsAlike left right agree.course shows address reads)
  · apply exchanges_simulation (fun one another => one.AgreeBut address another)
    · intro exchange given other related
      exact obey_of_agreeBut exchange.machine other address related exchange.command
        (unread exchange given)
    · exact agree

/-- A program of five bytes and one that was left over behind it. The program draws its
own first two bytes and goes on to the leftover one. -/
def littered (leftover : UInt8) : Machine :=
  let swept := (powerOn {} ⟨fun _ => 0, 0⟩).after [.load [0xA2, 0x00, 0xD0, 0x12, 0xC1]]
  { swept with memory := swept.memory.write 0x205 leftover }

/-- The first two steps, among requests that do not execute anything. -/
def tidyHours : List Command := [.step, .tick, .setKey 3 true, .step, .setKey 16 true]

/-- The byte left over is not seen before it is fetched as half of a word. -/
theorem littered_runs :
    (littered 0xFF).replies tidyHours = (littered 0x0F).replies tidyHours ∧
      ((littered 0x0F).after tidyHours).AgreeBut 0x205 ((littered 0xFF).after tidyHours) ∧
      ((littered 0x0F).after tidyHours).Reads 0x205 ∧
      ¬((littered 0x0F).after tidyHours).step.machine.ShowsAlike
        ((littered 0xFF).after tidyHours).step.machine := by
  obtain ⟨unread, fetched, differ⟩ :
      (((littered 0x0F).exchanges tidyHours).any
          (Exchange.isStepWith fun machine => machine.Reads 0x205)) = false ∧
        ((littered 0x0F).after tidyHours).Reads 0x205 ∧
        ((littered 0x0F).after tidyHours).memory.read 0x205 ≠
          ((littered 0xFF).after tidyHours).memory.read 0x205 := by
    decide +kernel
  have agree : (littered 0x0F).AgreeBut 0x205 (littered 0xFF) := by
    refine ⟨⟨rfl, rfl, rfl, rfl, rfl, rfl, rfl, rfl⟩, rfl, rfl, rfl, rfl, fun _ => rfl,
      fun other elsewhere => ?_⟩
    rw [littered, littered, Memory.read_write, Memory.read_write, if_neg (Ne.symm elsewhere),
      if_neg (Ne.symm elsewhere)]
  obtain ⟨_, _, run⟩ := step_sees_footprint (littered 0x0F) (littered 0xFF) 0x205 agree
  obtain ⟨replies, _, throughout⟩ := run tidyHours fun exchange given steps => by
    simpa [Exchange.isStepWith, steps] using List.any_eq_false.mp unread exchange given
  have behind := throughout tidyHours List.prefix_rfl
  obtain ⟨_, shown, _⟩ := step_sees_footprint _ _ 0x205 behind
  exact ⟨replies, behind, fetched, shown fetched differ⟩

end Machine

end Chip8
