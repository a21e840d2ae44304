import Chip8.Proofs.Machine.Bounds
import Chip8.Proofs.Machine.GuardedAccess

/-!
# Guarded steps

A guarded step takes nothing for granted. It reads and writes through guarded
accesses, with the wrapping that an instruction itself asks for and no other, it
looks for room on the stack before it pushes, and it converts the counter and
the index register only without loss. Where one of these fails it has no outcome.

The guarded step of every machine is its step. Whatever wraps, refuses or
truncates beneath an instruction is therefore never relied on: decoding bounds
the register numbers and the address operands, the instruction wraps the rest,
and the counter is bounded by the place that an instruction is fetched from.
-/

namespace Chip8

/-- Finishes a step that succeeded, if the counter loses nothing. The target of an effect is a
number without bounds, and it becomes a counter of sixteen bits. -/
def Effect.guardedComplete (effect : Effect) (events : List Event) : Option Outcome := do
  let _ ← narrow? (effect.flow.target effect.machine.counter.toNat)
  some (effect.complete events)

namespace Machine

/-- Fetches the word at the counter by guarded reads of its two bytes. The check in front of them
is the step's own and has an answer; the reads behind it have none if the check was not enough. -/
def guardedFetch (machine : Machine) : Option (Except OpcodeFault Opcode) :=
  let address := machine.counter.toNat
  if address + 1 < Memory.capacity then do
    let high ← machine.memory.read? address
    let low ← machine.memory.read? (address + 1)
    some (.ok (Opcode.ofBytes high low))
  else some (.error (.outOfBounds address Memory.capacity))

/-- Draws by guarded access. The only wrapping is that of the sprite's addresses and of its
positions. -/
def guardedDraw (machine : Machine) (x y height : Nat) : Option Machine := do
  let column ← machine.registers.read? x
  let row ← machine.registers.read? y
  let sprite ← machine.memory.readBlock? machine.index.toNat height
  let (screen, collided) ← machine.screen.flipAll? (Sprite.cells sprite column.toNat row.toNat)
  let registers ← machine.registers.write? Registers.flag collided.toUInt8
  some { machine with screen, registers }

/-- Waits for a key by guarded access. A pressed key is stored, and otherwise nothing is reached.
-/
def guardedAwaitKey (machine : Machine) (x : Nat) : Option Effect :=
  match machine.keypad.lowestPressed with
  | some key => do
    let registers ← machine.registers.write? x key.toUInt8
    some { machine := { machine with registers, status := .running } }
  | none =>
    some { machine := { machine with status := .awaitingKey x }, flow := .again, signal := .wait }

/-- The machine with another register file, if there is one. It is how the instructions end that
write a register and do nothing else. -/
def withRegisters (machine : Machine) (registers : Option Registers) :
    Option (Except StackFault Effect) :=
  registers.map fun registers => .ok { machine := { machine with registers } }

/-- The effect of an instruction by guarded access, with one branch for each instruction as in
`execute`. It has no value as soon as one access of the branch has none: a register number above
fifteen, a push onto a full stack, an index that needs more than sixteen bits.

The address that a call returns to is an argument. It was converted when the counter was moved
behind the instruction, and that conversion belongs to the step. A full stack is looked for before
anything is pushed, since it is an answer of the machine and not a missing access. -/
def guardedExecute (machine : Machine) (following : UInt16) :
    Instruction → Option (Except StackFault Effect)
  | .hostRoutine address => some (.ok { machine, remarks := [.ignoredRoutine address] })
  | .clearScreen => some (.ok { machine := { machine with screen := .blank }, signal := .draw })
  | .returnFromCall => some (machine.execute .returnFromCall)
  | .jump target => some (.ok { machine, flow := .jump target })
  | .call target =>
    if machine.stack.depth = CallStack.capacity then some (.error .full)
    else do
      let stack ← machine.stack.push? following
      some (.ok { machine := { machine with stack }, flow := .jump target })
  | .skipIfValue x value => do
    let held ← machine.registers.read? x
    some (.ok { machine, flow := .skipIf (held == value) })
  | .skipUnlessValue x value => do
    let held ← machine.registers.read? x
    some (.ok { machine, flow := .skipIf (held != value) })
  | .skipIfSame x y => do
    let left ← machine.registers.read? x
    let right ← machine.registers.read? y
    some (.ok { machine, flow := .skipIf (left == right) })
  | .loadValue x value => machine.withRegisters (machine.registers.write? x value)
  | .addValue x value => do
    let held ← machine.registers.read? x
    machine.withRegisters (machine.registers.write? x (held + value))
  | .arithmetic operation x y => machine.withRegisters (machine.registers.combine? operation x y)
  | .skipIfDifferent x y => do
    let left ← machine.registers.read? x
    let right ← machine.registers.read? y
    some (.ok { machine, flow := .skipIf (left != right) })
  | .loadIndex address => do
    let index ← narrow? address
    some (.ok { machine := { machine with index } })
  | .jumpWithOffset base => do
    let offset ← machine.registers.read? 0
    some (.ok { machine, flow := .jump (base + offset.toNat) })
  | .random x mask => do
    let (byte, entropy) := machine.entropy.next
    let registers ← machine.registers.write? x (byte &&& mask)
    some (.ok { machine := { machine with entropy, registers } })
  | .draw x y height => do
    let drawn ← machine.guardedDraw x y height
    some (.ok { machine := drawn, signal := .draw })
  | .skipIfPressed x => do
    let key ← machine.registers.read? x
    some (.ok { machine, flow := .skipIf (machine.keypad.isPressed key.toNat) })
  | .skipUnlessPressed x => do
    let key ← machine.registers.read? x
    some (.ok { machine, flow := .skipIf (!machine.keypad.isPressed key.toNat) })
  | .readDelay x => machine.withRegisters (machine.registers.write? x machine.delay.value)
  | .awaitKey x => do
    let effect ← machine.guardedAwaitKey x
    some (.ok effect)
  | .startDelay x => do
    let value ← machine.registers.read? x
    some (.ok { machine := { machine with delay := ⟨value⟩ } })
  | .startSound x => do
    let value ← machine.registers.read? x
    some (.ok { machine := { machine with sound := ⟨value⟩ } })
  | .advanceIndex x => do
    let distance ← machine.registers.read? x
    some (.ok { machine := { machine with index := machine.index + distance.toUInt16 } })
  | .pointAtGlyph x => do
    let digit ← machine.registers.read? x
    let index ← narrow? (Glyphs.address digit)
    some (.ok { machine := { machine with index } })
  | .storeDigits x => do
    let value ← machine.registers.read? x
    let memory ← machine.memory.writeBlock? machine.index.toNat (decimalDigits value)
    some (.ok { machine := { machine with memory } })
  | .storeRegisters x => do
    let values ← (List.range (x + 1)).mapM machine.registers.read?
    let memory ← machine.memory.writeBlock? machine.index.toNat values
    some (.ok { machine := { machine with memory } })
  | .loadRegisters x => do
    let values ← machine.memory.readBlock? machine.index.toNat (x + 1)
    machine.withRegisters (machine.registers.writeFrom? 0 values)

/-- Decodes and executes the word that was fetched by guarded access. The counter is converted
twice, before the instruction is executed and behind it, and both conversions must keep every bit.
-/
def guardedDispatch (machine : Machine) : Option Outcome :=
  match machine.decoded with
  | .error cause => some (machine.fail (.opcode cause) [])
  | .ok decoded => do
    let following ← narrow? (Flow.next.target machine.counter.toNat)
    match decoded with
    | none => some (Effect.complete { machine } [.skippedOpcode machine.opcode machine.counter])
    | some instruction =>
      let executing := [.executing machine.counter machine.opcode instruction]
      match ← machine.guardedExecute following instruction with
      | .error cause => some (machine.fail (.stack cause) executing)
      | .ok effect => effect.guardedComplete executing

/-- One step by guarded access of a machine that is not halted: fetch, then dispatch. -/
def guardedAttempt (machine : Machine) : Option Outcome := do
  match ← machine.guardedFetch with
  | .error cause => some (machine.fail (.opcode cause) [])
  | .ok opcode => guardedDispatch { machine with opcode }

/-- One step by guarded access. It has an outcome only if everything that the step reaches on its
way is there. -/
def guardedStep (machine : Machine) : Option Outcome :=
  match machine.status with
  | .halted fault => some { machine, result := .error fault, events := [] }
  | .running => machine.guardedAttempt
  | .awaitingKey _ => machine.guardedAttempt

/-- Without a halt the guarded step is an attempt, whether the machine waits for a key or not. -/
theorem guardedStep_of_active (machine : Machine) (active : machine.Active) :
    machine.guardedStep = machine.guardedAttempt := by
  unfold guardedStep
  split
  · next fault halted => exact absurd halted (active fault)
  · rfl
  · rfl

/-- A guarded fetch is the fetch. Inside memory both of its reads are below the end; outside it
reads nothing. -/
theorem guardedFetch_eq (machine : Machine) :
    machine.guardedFetch =
      some (Opcode.fetch machine.memory.bytes machine.counter.toNat) := by
  by_cases inside : machine.InMemory
  · have room : machine.counter.toNat + 1 < Memory.capacity := inside
    have low := machine.memory.read?_mod (machine.counter.toNat + 1)
    have high := machine.memory.read?_mod machine.counter.toNat
    rw [Nat.mod_eq_of_lt room] at low
    rw [Nat.mod_eq_of_lt (Nat.lt_of_succ_lt room)] at high
    simp [guardedFetch, room, low, high, fetch_of_inMemory machine inside, nextWord]
  · have outside : ¬machine.counter.toNat + 1 < Memory.capacity := inside
    simp [guardedFetch, outside, fetch_of_not_inMemory machine inside]

/-- Inside memory the guarded step dispatches the word at the counter, as the step does. -/
theorem guardedStep_of_inMemory (machine : Machine) (active : machine.Active)
    (inside : machine.InMemory) : machine.guardedStep = machine.fetched.guardedDispatch := by
  rw [guardedStep_of_active machine active, guardedAttempt, guardedFetch_eq,
    fetch_of_inMemory machine inside]
  rfl

/-- Drawing by guarded access is drawing. The registers have to exist; sprite and pixels are
wrapped anyway. -/
theorem guardedDraw_eq (machine : Machine) (x y height : Nat) (column : x < Registers.count)
    (row : y < Registers.count) :
    machine.guardedDraw x y height = some (machine.draw x y height) := by
  have flag : Registers.flag < Registers.count := by decide
  simp [guardedDraw, draw, Registers.read?_eq, Registers.write?_eq, Memory.readBlock?_eq,
    Screen.flipAll?_eq, column, row]

/-- Waiting by guarded access is waiting. The register has to exist only if a key is pressed. -/
theorem guardedAwaitKey_eq (machine : Machine) (x : Nat) (target : x < Registers.count) :
    machine.guardedAwaitKey x = some (machine.awaitKey x) := by
  unfold guardedAwaitKey awaitKey
  cases machine.keypad.lowestPressed with
  | none => rfl
  | some key => simp [Registers.write?_eq, target]

/-- Guarded access gives an instruction its effect. That the operands fit is all that is needed:
the stack's own bound leaves room where it is not full, an address fits into sixteen bits, and a
glyph is never placed beyond them. The cases that are written out need one of these facts; in all
others a register is read or written that exists. -/
theorem guardedExecute_eq (machine : Machine) (following : UInt16) (instruction : Instruction)
    (fits : instruction.Fits)
    (moved : following = (Flow.next.target machine.counter.toNat).toUInt16) :
    machine.guardedExecute following instruction = some (machine.execute instruction) := by
  cases instruction <;> simp [Instruction.Fits, Instruction.operands, Operand.Fits] at fits
  case hostRoutine | clearScreen | returnFromCall | jump => rfl
  case call target =>
    have bounded := machine.stack.bounded
    simp only [guardedExecute, execute, CallStack.push?, CallStack.push, CallStack.depth, moved]
    by_cases full : machine.stack.frames.length = CallStack.capacity
    · simp [full]
    · have room : machine.stack.frames.length < CallStack.capacity := by omega
      simp [full, room]
  case jumpWithOffset base =>
    have zeroth : 0 < Registers.count := by decide
    simp [guardedExecute, execute, Registers.read?_eq, zeroth]
  case arithmetic operation x y =>
    simp [guardedExecute, execute, withRegisters, Registers.combine?_eq, fits]
  case loadIndex address =>
    have narrow : address < UInt16.size := Nat.lt_trans fits (by decide)
    simp [guardedExecute, execute, narrow?_eq, narrow]
  case pointAtGlyph x =>
    have narrow (digit : UInt8) : Glyphs.address digit < UInt16.size := Glyphs.address_lt digit
    simp [guardedExecute, execute, Registers.read?_eq, fits, narrow?_eq, narrow]
  case draw x y height =>
    simp [guardedExecute, execute, guardedDraw_eq, fits]
  case awaitKey x =>
    simp [guardedExecute, execute, guardedAwaitKey_eq, fits]
  case storeRegisters x =>
    have stored : (List.range (x + 1)).mapM machine.registers.read? =
        some (machine.registers.upTo x) :=
      mapM_eq_some_map _ _ _ fun number within =>
        machine.registers.read?_eq number
          (Nat.lt_of_lt_of_le (List.mem_range.mp within) (Nat.succ_le_of_lt fits))
    simp [guardedExecute, execute, stored, Memory.writeBlock?_eq]
  case loadRegisters x =>
    have values : 0 + (machine.memory.readBlock machine.index.toNat (x + 1)).length ≤
        Registers.count := by
      rw [Memory.length_readBlock, Nat.zero_add]
      exact Nat.succ_le_of_lt fits
    simp [guardedExecute, execute, withRegisters, Memory.readBlock?_eq,
      Registers.writeFrom?_eq _ _ _ values]
  all_goals
    simp [guardedExecute, execute, withRegisters, Registers.read?_eq, Registers.write?_eq,
      Memory.writeBlock?_eq, fits]

/-- A step by guarded access of a machine in bounds is its step. The address behind the
instruction and the target of its effect are the two numbers that become the counter. The first is
close to an address inside memory, and the second was bounded with the machine. Decoding sees to
it that operands fit, so each case of a step is reached with guards that hold. -/
theorem guardedStep_eq (machine : Machine) (bounded : machine.InBounds) :
    machine.guardedStep = some machine.step := by
  have fetchedBounded := inBounds_fetched machine bounded
  have following (inside : machine.InMemory) :
      narrow? (Flow.next.target machine.fetched.counter.toNat) =
        some (Flow.next.target machine.fetched.counter.toNat).toUInt16 := by
    apply narrow?_eq
    have room : machine.counter.toNat + 1 < 4096 := inside
    simp only [fetched, Flow.target, Opcode.size, UInt16.size]
    omega
  have taken := machine.transition_step
  generalize machine.step = outcome at taken ⊢
  cases taken with
  | halted fault stopped => simp only [guardedStep, stopped]
  | overran active outside =>
    rw [guardedStep_of_active machine active, guardedAttempt, guardedFetch_eq,
      fetch_of_not_inMemory machine outside]
    rfl
  | refused cause active inside unknown =>
    have meaning : machine.fetched.decoded = .error cause := unknown
    rw [guardedStep_of_inMemory machine active inside, guardedDispatch, meaning]
  | skipped active inside unknown =>
    have meaning : machine.fetched.decoded = .ok none := unknown
    rw [guardedStep_of_inMemory machine active inside, guardedDispatch, meaning]
    dsimp only
    rw [following inside]
    rfl
  | failed instruction cause active inside decoded unable =>
    have meaning : machine.fetched.decoded = .ok (some instruction) := decoded
    rw [guardedStep_of_inMemory machine active inside, guardedDispatch, meaning]
    dsimp only
    rw [following inside, Option.bind_eq_bind, Option.bind_some,
      guardedExecute_eq _ _ _ (Instruction.fits_of_decodeUnder _ _ _ decoded) rfl, unable]
    rfl
  | executed instruction effect active inside decoded done =>
    have meaning : machine.fetched.decoded = .ok (some instruction) := decoded
    have fits := Instruction.fits_of_decodeUnder _ _ _ decoded
    have reached := target_of_execute_le machine.fetched _ _ inside fits fetchedBounded done
    rw [← (confined_of_execute _ _ _ done).counter] at reached
    rw [guardedStep_of_inMemory machine active inside, guardedDispatch, meaning]
    dsimp only
    rw [following inside, Option.bind_eq_bind, Option.bind_some,
      guardedExecute_eq _ _ _ fits rfl, done, Option.bind_eq_bind, Option.bind_some]
    dsimp only
    rw [Effect.guardedComplete, narrow?_eq _ (Nat.lt_of_le_of_lt reached (by decide))]
    rfl

/-- Whatever is asked of a machine that was switched on, it stays in bounds, and its next step can
be made by guarded access. The bounds are an invariant of every command, by one case for each kind
of transition, and they are all that guarded access needs. There is no hypothesis: no host can
bring a machine into a state from which a step would leave its storage or lose a bit. -/
theorem safe_after_powerOn (config : Config) (entropy : Entropy) (commands : List Command) :
    ((powerOn config entropy).after commands).InBounds ∧
      ((powerOn config entropy).after commands).guardedStep =
        some ((powerOn config entropy).after commands).step := by
  have bounded := inBounds_after _ commands (inBounds_powerOn config entropy)
  exact ⟨bounded, guardedStep_eq _ bounded⟩

end Machine

end Chip8
