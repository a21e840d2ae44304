import Chip8.Proofs.Machine.Exchange
import Chip8.Proofs.Machine.KeyWait
import Chip8.Proofs.Machine.Success

/-!
# Where execution goes

The instruction set documents the way of the program counter by a convention: the counter
first moves behind the word, and then the word may move it again or leave it there. A
call remembers the counter that has moved already, and a wait that goes on moves it back.
A step computes the same differently, from the address of the word itself. Here the
convention is written down as it is documented, over numbers that never wrap, and every
run of successful steps is shown to follow it.

Besides the place, the convention looks at the word, the registers and the keys, and at
nothing else.
-/

namespace Chip8

/-- Where execution stands: the address of the next word, and the addresses that the calls in
progress return to, the innermost first. All of them are numbers without a bound, so that nothing
said about places can wrap. -/
structure Place where
  counter : Nat
  returns : List Nat
  deriving DecidableEq, Repr

/-- What the convention looks at, besides the place. It sees neither memory beyond the word nor
the index register, the timers or the screen. -/
structure Sight where
  word : Opcode
  registers : Registers
  keypad : Keypad

namespace Sight

/-- The register that the first operand names. -/
def x (sight : Sight) : UInt8 := sight.registers.read sight.word.first

/-- The register that the second operand names. -/
def y (sight : Sight) : UInt8 := sight.registers.read sight.word.second

/-- The key in the first register is pressed. What is no key is not pressed. -/
def holdsKey (sight : Sight) : Bool :=
  decide (sight.x.toNat < Keypad.count) && sight.keypad.isPressed sight.x.toNat

/-- The word compares two registers. Where unknown words are passed over its low nibble
is not looked at. -/
def compares (sight : Sight) (policy : UnknownWords) : Bool :=
  decide (policy = .skip) || decide (sight.word.nibble = 0)

end Sight

namespace Place

/-- Behind the word at the counter. -/
def advance (place : Place) : Place := { place with counter := place.counter + Opcode.size }

/-- Behind the next word as well, if the condition holds. -/
def passIf (place : Place) (condition : Bool) : Place :=
  if condition then place.advance else place

/-- Where the flow of an instruction at the counter leads. This is the place's own account of a
flow, to be compared with the convention. -/
def moveBy (place : Place) (flow : Flow) : Place :=
  { place with counter := flow.target place.counter }

/-- A condition leads behind the word, and behind the next one if it holds. The flow counts from
the word itself and the convention from behind it. -/
theorem moveBy_skipIf (place : Place) (condition : Bool) :
    place.moveBy (.skipIf condition) = place.advance.passIf condition := by
  cases condition <;> rfl

/-- Going on where one was is to advance and to go back, as the convention puts it. -/
theorem moveBy_again (place : Place) :
    place.moveBy .again =
      { place.advance with counter := place.advance.counter - Opcode.size } := rfl

/-- Behind the latest call. A place without a call in progress stays, which no successful step
asks of it. -/
def leaveCall (place : Place) : Place :=
  match place.returns with
  | [] => place
  | target :: rest => { counter := target, returns := rest }

/-- The convention: where execution goes from a place, by what is in sight there. It goes by the
fields of the word, without an instruction in between, so it can be read beside the documentation
of the words. -/
def follow (policy : UnknownWords) (place : Place) (sight : Sight) : Place :=
  let advanced := place.advance
  let word := sight.word
  match word.group with
  | 0x0 => if word = 0x00EE then advanced.leaveCall else advanced
  | 0x1 => { advanced with counter := word.address }
  | 0x2 => { counter := word.address, returns := advanced.counter :: advanced.returns }
  | 0x3 => advanced.passIf (sight.x == word.byte)
  | 0x4 => advanced.passIf (sight.x != word.byte)
  | 0x5 => advanced.passIf (sight.compares policy && sight.x == sight.y)
  | 0x9 => advanced.passIf (sight.compares policy && sight.x != sight.y)
  | 0xB => { advanced with counter := word.address + (sight.registers.read 0).toNat }
  | 0xE =>
    if word.byte = 0x9E then advanced.passIf sight.holdsKey
    else if word.byte = 0xA1 then advanced.passIf !sight.holdsKey
    else advanced
  | 0xF =>
    if word.byte = 0x0A ∧ sight.keypad.lowestPressed = none then
      { advanced with counter := advanced.counter - Opcode.size }
    else advanced
  | _ => advanced

end Place

/-- The instruction always goes on behind its word and leaves the calls alone. The others are the
ones that the convention has a rule for. -/
def Instruction.goesStraight : Instruction → Bool
  | jump _ | jumpWithOffset _ | call _ | returnFromCall => false
  | skipIfValue _ _ | skipUnlessValue _ _ | skipIfSame _ _ | skipIfDifferent _ _ => false
  | skipIfPressed _ | skipUnlessPressed _ | awaitKey _ => false
  | _ => true

/-- The convention does no more than to go behind a word that goes straight on or is passed over.
The cases are the ways to read a word; in each of them the fields that are known of the word
choose the branch of the convention. -/
theorem Place.follow_of_goesStraight (policy : UnknownWords) (place : Place) (sight : Sight)
    (found : Option Instruction) (read : Instruction.ReadFrom sight.word found)
    (straight : ∀ instruction, found = some instruction → instruction.goesStraight = true) :
    place.follow policy sight = place.advance := by
  have noWait : ∀ selector, selector ≠ 0x0A → sight.word.IsTransfer selector →
      place.follow policy sight = place.advance := by
    rintro selector other ⟨group, rfl⟩
    simp only [follow, group, other, false_and, if_false]
  cases read
  case hostRoutine group notClear notReturn =>
    simp only [follow, group, notReturn, if_false]
  case clearScreen same =>
    have group : sight.word.group = 0 := by rw [same]; decide
    have notReturn : sight.word ≠ 0x00EE := by rw [same]; decide
    simp only [follow, group, notReturn, if_false]
  case loadValue group | addValue group | loadIndex group | random group | draw group =>
    simp only [follow, group]
  case arithmetic operation group selected => simp only [follow, group]
  case unknownArithmetic group unknown => simp only [follow, group]
  case unknownKeypad group notPressed notReleased =>
    simp only [follow, group, notPressed, notReleased, if_false]
  case unknownTransfer group unknown =>
    refine noWait sight.word.byte ?_ ⟨group, rfl⟩
    intro selected
    rw [selected] at unknown
    exact unknown (by decide)
  case readDelay selected | startDelay selected | startSound selected | advanceIndex selected |
      pointAtGlyph selected | storeDigits selected | storeRegisters selected |
      loadRegisters selected =>
    exact noWait _ (by decide) selected
  all_goals exact absurd (straight _ rfl) Bool.false_ne_true

/-- A number that is no key is not pressed, so nothing else has to be asked. The convention asks,
because it is documented that way. -/
theorem Sight.holdsKey_eq (sight : Sight) :
    sight.holdsKey = sight.keypad.isPressed sight.x.toNat := by
  by_cases inside : sight.x.toNat < Keypad.count
  · simp only [holdsKey, inside, decide_true, Bool.true_and]
  · rw [holdsKey, sight.keypad.isPressed_outside _ (Nat.not_lt.mp inside), Bool.and_false]

/-- A policy that reads a word as a comparison of registers looks at its low nibble, or the nibble
is zero. This is the one place where the convention needs to know the policy. -/
theorem Sight.compares_of_decodeUnder (sight : Sight) (policy : UnknownWords)
    (instruction : Instruction) (compares : instruction.comparesRegisters = true)
    (decoded : Instruction.decodeUnder policy sight.word = .ok (some instruction)) :
    sight.compares policy = true := by
  cases policy with
  | skip => rfl
  | halt =>
    rw [Instruction.decodeUnder_halt] at decoded
    split at decoded
    · next found =>
      cases decoded
      have written := Instruction.word_of_ofOpcode? _ _ found
      cases instruction <;>
        simp only [Instruction.comparesRegisters, Bool.false_eq_true] at compares
      all_goals
        simp only [Instruction.word] at written
        have zero : sight.word.nibble = 0 := by
          rw [Opcode.nibble]
          omega
        rw [Sight.compares, decide_eq_true zero, Bool.or_true]
    · contradiction

namespace Machine

/-- The place of a machine. -/
def place (machine : Machine) : Place where
  counter := machine.counter.toNat
  returns := machine.stack.frames.map UInt16.toNat

/-- What a machine has in sight. -/
def sight (machine : Machine) : Sight where
  word := machine.nextWord
  registers := machine.registers
  keypad := machine.keypad

/-- A completed effect moves the counter to the target of its flow, without wrapping. The bound is
needed because the counter has sixteen bits and a place has no bound. -/
theorem place_complete (effect : Effect) (events : List Event)
    (bounded : effect.flow.target effect.machine.counter.toNat < UInt16.size) :
    (effect.complete events).machine.place = effect.machine.place.moveBy effect.flow := by
  rw [Effect.machine_complete, Place.moveBy, place, place, Place.mk.injEq]
  exact ⟨UInt16.toNat_ofNat_of_lt' bounded, rfl⟩

/-- An instruction that goes straight on asks for nothing else and moves no call. The proof
computes the effect of each. -/
theorem flow_of_goesStraight (machine : Machine) (instruction : Instruction) (effect : Effect)
    (straight : instruction.goesStraight = true)
    (executed : machine.execute instruction = .ok effect) :
    effect.flow = .next ∧ effect.machine.place = machine.place := by
  cases instruction <;> first | contradiction | cases executed; exact ⟨rfl, rfl⟩

/-- From inside memory no instruction asks for an address that would wrap. Jumps go to twelve
bits, with at most one byte added, skips go at most four bytes on, and a return goes to an address
that the stack holds. -/
theorem target_lt_of_execute (machine : Machine) (instruction : Instruction) (effect : Effect)
    {word : Opcode} (read : Instruction.ReadFrom word (some instruction))
    (executed : machine.execute instruction = .ok effect) (inside : machine.InMemory) :
    effect.flow.target machine.counter.toNat < UInt16.size := by
  have address := word.address_lt
  have room : machine.counter.toNat + 1 < 4096 := inside
  rw [UInt16.size]
  cases straight : instruction.goesStraight with
  | true =>
    rw [(flow_of_goesStraight _ _ _ straight executed).1, Flow.target, Opcode.size]
    omega
  | false =>
    cases read <;> simp only [execute, Instruction.goesStraight, Bool.true_eq_false]
      at executed straight
    case returnFromCall =>
      split at executed
      · contradiction
      · next target stack popped =>
        cases executed
        exact target.toNat_lt
    case call =>
      split at executed
      · contradiction
      · cases executed
        simp only [Flow.target]
        omega
    case jump =>
      cases executed
      simp only [Flow.target]
      omega
    case jumpWithOffset =>
      have offset := (machine.registers.read 0).toNat_lt
      cases executed
      simp only [Flow.target]
      omega
    case awaitKey =>
      cases executed
      unfold awaitKey
      split <;> simp only [Flow.target, Opcode.size] <;> omega
    all_goals
      cases executed
      dsimp only
      rw [Flow.target_skipIf, Opcode.size]
      split <;> omega

/-- A wait leads where the convention says. Without a key the instruction asks to stay, and the
convention goes behind the word and back. -/
theorem moveBy_awaitKey (machine : Machine) (policy : UnknownWords) (x : Nat)
    (selected : machine.nextWord.IsTransfer 0x0A) :
    (machine.awaitKey x).machine.place.moveBy (machine.awaitKey x).flow =
      machine.place.follow policy machine.sight := by
  have word : machine.sight.word = machine.nextWord := rfl
  have keys : machine.sight.keypad = machine.keypad := rfl
  obtain ⟨group, byte⟩ := selected
  simp only [Place.follow, word, group, byte, keys, true_and]
  cases pressed : machine.keypad.lowestPressed with
  | none =>
    rw [awaitKey_of_released machine x pressed, if_pos rfl]
    exact machine.place.moveBy_again
  | some key =>
    rw [awaitKey_of_pressed machine x key pressed]
    rfl

/-- A call leads where the convention says, because the address behind it does not wrap. That
address is what the stack remembers, in sixteen bits. -/
theorem moveBy_call (machine : Machine) (policy : UnknownWords) (stack : CallStack)
    (inside : machine.InMemory) (group : machine.nextWord.group = 0x2)
    (pushed : machine.stack.push (Flow.next.target machine.counter.toNat).toUInt16 = .ok stack) :
    ({ machine with stack } : Machine).place.moveBy (.jump machine.nextWord.address) =
      machine.place.follow policy machine.sight := by
  have word : machine.sight.word = machine.nextWord := rfl
  have room : machine.counter.toNat + 1 < 4096 := inside
  have unwrapped : (Flow.next.target machine.counter.toNat).toUInt16.toNat =
      machine.counter.toNat + Opcode.size := by
    apply UInt16.toNat_ofNat_of_lt'
    simp only [Flow.target, Opcode.size, UInt16.size]
    omega
  simp only [Place.follow, word, group, Place.advance, place, Place.moveBy,
    CallStack.frames_of_push _ _ _ pushed, List.map_cons, unwrapped]
  rfl

/-- A return leads where the convention says. It succeeds only if a call is in progress, and that
is the one that the convention leaves. -/
theorem moveBy_return (machine : Machine) (policy : UnknownWords) (target : UInt16)
    (stack : CallStack) (same : machine.nextWord = 0x00EE)
    (popped : machine.stack.pop = .ok (target, stack)) :
    ({ machine with stack } : Machine).place.moveBy (.jump target.toNat) =
      machine.place.follow policy machine.sight := by
  have word : machine.sight.word = machine.nextWord := rfl
  simp only [Place.follow, word, same, if_true, Place.leaveCall, Place.advance, place,
    CallStack.frames_of_pop _ _ _ popped, List.map_cons]
  rfl

/-- An instruction leads where the convention says. Those that go straight on are done with; of
the others each has its rule, and the fields of the word choose it. -/
theorem moveBy_of_execute (machine : Machine) (policy : UnknownWords) (instruction : Instruction)
    (effect : Effect) (inside : machine.InMemory)
    (read : Instruction.ReadFrom machine.nextWord (some instruction))
    (compares : instruction.comparesRegisters = true → machine.sight.compares policy = true)
    (executed : machine.execute instruction = .ok effect) :
    effect.machine.place.moveBy effect.flow = machine.place.follow policy machine.sight := by
  have word : machine.sight.word = machine.nextWord := rfl
  cases straight : instruction.goesStraight with
  | true =>
    obtain ⟨flow, same⟩ := flow_of_goesStraight _ _ _ straight executed
    rw [flow, same, Place.follow_of_goesStraight policy _ machine.sight _ read]
    · rfl
    · rintro _ ⟨⟩
      exact straight
  | false =>
    cases read <;> simp only [execute, Instruction.goesStraight, Bool.true_eq_false]
      at executed straight
    case returnFromCall same =>
      split at executed
      · contradiction
      · next target stack popped =>
        cases executed
        exact moveBy_return machine policy target stack same popped
    case call group =>
      split at executed
      · contradiction
      · next stack pushed =>
        cases executed
        exact moveBy_call machine policy stack inside group pushed
    case awaitKey selected =>
      cases executed
      exact moveBy_awaitKey machine policy _ selected
    case jump group | jumpWithOffset group =>
      cases executed
      simp only [Place.follow, word, group]
      rfl
    case skipIfValue group | skipUnlessValue group =>
      cases executed
      simp only [Place.follow, word, group]
      exact Place.moveBy_skipIf _ _
    case skipIfSame group | skipIfDifferent group =>
      cases executed
      simp only [Place.follow, word, group, compares rfl, Bool.true_and]
      exact Place.moveBy_skipIf _ _
    case skipIfPressed group selected =>
      cases executed
      simp only [Place.follow, word, group, selected, if_true, Sight.holdsKey_eq]
      exact Place.moveBy_skipIf _ _
    case skipUnlessPressed group selected =>
      cases executed
      have other : ¬(0xA1 : UInt8) = 0x9E := by decide
      simp only [Place.follow, word, group, selected, other, if_true, if_false, Sight.holdsKey_eq]
      exact Place.moveBy_skipIf _ _

/-- A successful step leads where the convention says. A word that is passed over goes straight
on; an instruction leads where its flow does, and its address does not wrap. -/
theorem place_step (machine : Machine) (signal : Signal)
    (succeeded : machine.step.result = .ok signal) :
    machine.step.machine.place = machine.place.follow machine.config.unknown machine.sight := by
  obtain ⟨found, effect, events, performs, _, completed⟩ :=
    performs_of_ok machine signal succeeded
  have done := performs.done
  rw [completed]
  cases found with
  | none =>
    cases done
    have room : machine.counter.toNat + 1 < 4096 := performs.inside
    rw [Place.follow_of_goesStraight _ _ machine.sight none performs.read nofun, place_complete]
    · rfl
    · simp only [Flow.target, fetched, Opcode.size, UInt16.size]
      omega
  | some instruction =>
    have counter := counter_of_execute _ _ _ done
    have bounded := target_lt_of_execute machine.fetched _ _ performs.read done performs.inside
    rw [← counter] at bounded
    rw [place_complete _ _ bounded]
    exact moveBy_of_execute machine.fetched _ _ _ performs.inside performs.read
      (fun compares => machine.sight.compares_of_decodeUnder _ _ compares performs.decoded) done

end Machine

/-- The machine that the exchange steps. -/
def Exchange.stepped? (exchange : Exchange) : Option Machine :=
  match exchange.command with
  | .step => some exchange.machine
  | _ => none

namespace Machine

/-- The machines that a history steps, in order, each as it is before the step. -/
def stepped (machine : Machine) (history : List Command) : List Machine :=
  (machine.exchanges history).filterMap Exchange.stepped?

/-- A step whose result is no fault has a signal. -/
theorem succeeds_of_isOk (machine : Machine) (fine : machine.step.result.isOk = true) :
    ∃ signal, machine.step.result = .ok signal := by
  cases result : machine.step.result with
  | ok signal => exact ⟨signal, rfl⟩
  | error fault =>
    rw [result] at fine
    contradiction

/-- A passive command moves no machine: the counter and the stack are in the core. -/
theorem place_obey (machine : Machine) (command : Command) (passive : command.isPassive = true) :
    (machine.obey command).machine.place = machine.place := by
  have same := sameCore_obey machine command passive
  rw [place, same.counter, same.stack]
  rfl

/-- A passive command steps no machine, so the machines that are stepped are those behind it. -/
theorem stepped_of_passive (machine : Machine) (command : Command) (rest : List Command)
    (passive : command.isPassive = true) :
    machine.stepped (command :: rest) = (machine.obey command).machine.stepped rest := by
  cases command <;> first | rfl | contradiction

/-- The places that a history of successful steps comes to are those of the convention, in the
same order: each follows from the one before by the word, the registers and the keys that are in
sight there. The host may move the keys between the steps, count the timers down or load programs,
as long as it does not reset the machine. The convention never wraps a number, so the counter and
the return addresses never do.

The induction is on the history. A step takes the convention one place further, and a passive
command moves the machine nowhere, though it may change what is in sight at the next step. A reset
is excluded because it jumps to the start of programs, which is no step of the convention. A step
that fails is excluded because it has no place to go to. -/
theorem places_follow_convention (machine : Machine) (history : List Command)
    (resetless : Command.reset ∉ history)
    (succeeded : ∀ stepped ∈ machine.stepped history, ∃ signal, stepped.step.result = .ok signal) :
    (machine.stepped history).map place ++ [(machine.after history).place] =
      ((machine.stepped history).map sight).scanl (Place.follow machine.config.unknown)
        machine.place := by
  induction history generalizing machine with
  | nil => rfl
  | cons command rest inductionHypothesis =>
    obtain ⟨_, later⟩ := List.ne_and_not_mem_of_not_mem_cons resetless
    rcases command.step_or_reset_or_passive with rfl | rfl | passive
    · have split : machine.stepped (.step :: rest) = machine :: machine.step.machine.stepped rest :=
        rfl
      rw [split] at succeeded ⊢
      obtain ⟨⟨signal, first⟩, others⟩ := List.forall_mem_cons.mp succeeded
      rw [List.map_cons, List.map_cons, List.scanl_cons, ← place_step machine signal first,
        ← config_step machine, List.cons_append, after_cons]
      exact congrArg (machine.place :: ·) (inductionHypothesis _ later others)
    · exact absurd List.mem_cons_self resetless
    · rw [stepped_of_passive machine command rest passive] at succeeded ⊢
      rw [after_cons, ← place_obey machine command passive, ← config_obey machine command]
      exact inductionHypothesis _ later succeeded

/-- A program that asks for a key which is no key, calls a routine that returns at once,
waits and jumps behind the end of memory. -/
def wanderer : Machine :=
  (powerOn { unknown := .halt } (Entropy.cycle #[])).after
    [.load [0x60, 0xFF, 0xE0, 0x9E, 0xE0, 0xA1, 0x00, 0x00, 0x22, 0x10, 0xF3, 0x0A, 0xBF, 0x80,
      0x00, 0x00, 0x00, 0xEE]]

/-- Six steps up to the wait, a key, and two steps from there. -/
def journey : List Command :=
  List.replicate 6 .step ++ .setKeys (.ofKeys fun key => key == 2) :: List.replicate 2 .step

/-- The places it comes to, told by the convention alone. -/
theorem wanderer_follows :
    (wanderer.stepped journey).map place ++ [(wanderer.after journey).place] =
        ((wanderer.stepped journey).map sight).scanl (Place.follow .halt) wanderer.place ∧
      ((wanderer.stepped journey).map sight).scanl (Place.follow .halt) wanderer.place =
        [⟨0x200, []⟩, ⟨0x202, []⟩, ⟨0x204, []⟩, ⟨0x208, []⟩, ⟨0x210, [0x20A]⟩, ⟨0x20A, []⟩,
          ⟨0x20A, []⟩, ⟨0x20C, []⟩, ⟨0x107F, []⟩] := by
  have checked : ∀ stepped ∈ wanderer.stepped journey, stepped.step.result.isOk = true := by
    decide +kernel
  refine ⟨places_follow_convention wanderer journey (by simp [journey]) ?_, by decide +kernel⟩
  intro stepped member
  exact succeeds_of_isOk stepped (checked stepped member)

/-- A machine that passes over unknown words, at a comparison of two equal registers whose
low nibble is not zero. -/
def lenientComparer : Machine := (powerOn {} (Entropy.cycle #[])).after [.load [0x50, 0x11]]

/-- It skips, where a convention that knows the comparison by its one word only would go
on behind the word. -/
theorem lenientComparer_skips :
    lenientComparer.nextWord = 0x5011 ∧ lenientComparer.step.result = .ok .quiet ∧
      lenientComparer.place.follow .halt lenientComparer.sight = ⟨0x202, []⟩ ∧
      lenientComparer.step.machine.place = ⟨0x204, []⟩ := by
  decide +kernel

end Machine

end Chip8
