import Chip8.Proofs.Machine.Writes

/-!
# Arithmetic of a step

What the words `8XYN` make of the registers, in numbers. Both operands are the values that
the registers hold before, also where an operand is the flag or both are one register.
Where the target is not the flag, target and flag together hold the whole sum, the whole
double, or half and remainder; a difference wraps, and its flag says whether it was
positive.

Where the target is the flag one of the two writings is lost. The addition writes its carry
last, the differences and the shifts write their result last.
-/

namespace Chip8

namespace ArithmeticOperation

/-- What an operation on `a` and `b` leaves in its target and in the flag, where these are two
registers. The first four operations leave the flag as it was. The others are stated by equations
between numbers, without the operations on bytes that compute them. -/
def Relates (operation : ArithmeticOperation) (a b target before flag : UInt8) : Prop :=
  match operation with
  | .assign => target = b ∧ flag = before
  | .or => target = a ||| b ∧ flag = before
  | .and => target = a &&& b ∧ flag = before
  | .xor => target = a ^^^ b ∧ flag = before
  | .add => 256 * flag.toNat + target.toNat = a.toNat + b.toNat
  | .subtract =>
    (target.toNat : Int) = (a.toNat - b.toNat) % 256 ∧ flag = if b < a then 1 else 0
  | .shiftRight => 2 * target.toNat + flag.toNat = a.toNat ∧ flag < 2
  | .subtractReversed =>
    (target.toNat : Int) = (b.toNat - a.toNat) % 256 ∧ flag = if a < b then 1 else 0
  | .shiftLeft => 256 * flag.toNat + target.toNat = 2 * a.toNat

/-- What an operation on `a` and `b` leaves in the flag, where the flag is its target. There is
one register for two values, so this is not what the general rule would leave. -/
def Retains (operation : ArithmeticOperation) (a b flag : UInt8) : Prop :=
  match operation with
  | .assign => flag = b
  | .or => flag = a ||| b
  | .and => flag = a &&& b
  | .xor => flag = a ^^^ b
  | .add => flag.toNat = (a.toNat + b.toNat) / 256
  | .subtract => (flag.toNat : Int) = (a.toNat - b.toNat) % 256
  | .shiftRight => flag.toNat = a.toNat / 2
  | .subtractReversed => (flag.toNat : Int) = (b.toNat - a.toNat) % 256
  | .shiftLeft => flag.toNat = 2 * a.toNat % 256

end ArithmeticOperation

/-- A condition is put into a register as one or zero. -/
theorem toUInt8_decide (condition : Prop) [Decidable condition] :
    (decide condition).toUInt8 = if condition then 1 else 0 := by
  simp only [Bool.toUInt8, decide_eq_true_eq]

section

variable (a b : UInt8)

/-- A sum of bytes is its carry and what wraps. Both sides are numbers, and nothing is lost
between them. -/
theorem sum_of_carry :
    256 * (decide (256 ≤ a.toNat + b.toNat)).toUInt8.toNat + (a + b).toNat =
      a.toNat + b.toNat := by
  have left := a.toNat_lt
  have right := b.toNat_lt
  rw [toUInt8_decide, UInt8.toNat_add]
  split
  · rw [UInt8.toNat_one]
    omega
  · rw [UInt8.toNat_zero]
    omega

/-- A difference of bytes wraps. It is stated over integers, where it may be negative before it
does. -/
theorem difference_wraps : ((a - b).toNat : Int) = (a.toNat - b.toNat) % 256 := by
  have left := a.toNat_lt
  have right := b.toNat_lt
  rw [UInt8.toNat_sub]
  omega

/-- A byte is twice its half and the bit that falls out. The bound makes the two unique. -/
theorem half_and_bit : 2 * (a / 2).toNat + (a % 2).toNat = a.toNat ∧ a % 2 < 2 := by
  constructor
  · rw [UInt8.toNat_div, UInt8.toNat_mod]
    exact Nat.div_add_mod _ _
  · rw [UInt8.lt_iff_toNat_lt, UInt8.toNat_mod]
    exact Nat.mod_lt _ (by decide)

/-- Twice a byte is its highest bit and what wraps, as a sum of the byte with itself. -/
theorem double_of_bit : 256 * (a / 128).toNat + (a + a).toNat = 2 * a.toNat := by
  have bound := a.toNat_lt
  simp only [UInt8.toNat_div, UInt8.toNat_add, UInt8.reduceToNat]
  omega

end

namespace Registers

/-- Under a target that is written behind it the flag stays, if it is another register. The
differences and the shifts write in this order. -/
theorem read_flag_below (registers : Registers) (x : Nat) (raised value : UInt8)
    (inside : x < count) (apart : x ≠ flag) :
    ((registers.write flag raised).write x value).read flag = raised := by
  rw [read_write_of_ne _ _ _ _ inside (by decide) apart.symm, read_write_self]

variable (registers : Registers) (operation : ArithmeticOperation) (x y : Nat)

/-- An operation with another target than the flag leaves its numbers in both. That the target is
another register is needed because otherwise one writing would cover the other. -/
theorem relates_combine (inside : x < count) (apart : x ≠ flag) :
    operation.Relates (registers.read x) (registers.read y)
      ((registers.combine operation x y).read x) (registers.read flag)
      ((registers.combine operation x y).read flag) := by
  have target := read_write_self registers x
  have spared : ∀ value, (registers.write x value).read flag = registers.read flag :=
    fun value => read_write_of_ne _ _ _ value inside (by decide) apart.symm
  cases operation <;> simp only [combine, ArithmeticOperation.Relates]
  case assign | or | and | xor => exact ⟨target _, spared _⟩
  case add =>
    rw [read_write_self, read_write_of_ne _ _ _ _ (by decide) inside apart, target]
    exact sum_of_carry _ _
  case subtract | subtractReversed =>
    rw [read_flag_below _ _ _ _ inside apart, read_write_self]
    exact ⟨difference_wraps _ _, toUInt8_decide _⟩
  case shiftRight =>
    rw [read_flag_below _ _ _ _ inside apart, read_write_self]
    exact half_and_bit _
  case shiftLeft =>
    rw [read_flag_below _ _ _ _ inside apart, read_write_self]
    exact double_of_bit _

/-- An operation with the flag as its target leaves there what it writes last: its carry in case
of the addition, and otherwise its result. -/
theorem retains_combine :
    operation.Retains (registers.read flag) (registers.read y)
      ((registers.combine operation flag y).read flag) := by
  cases operation <;>
    simp only [combine, ArithmeticOperation.Retains, read_write_self]
  case add =>
    have whole := sum_of_carry (registers.read flag) (registers.read y)
    have wrapped := (registers.read flag + registers.read y).toNat_lt
    omega
  case subtract | subtractReversed => exact difference_wraps _ _
  case shiftRight => exact UInt8.toNat_div _ _
  case shiftLeft =>
    have whole := double_of_bit (registers.read flag)
    have wrapped := (registers.read flag + registers.read flag).toNat_lt
    omega

end Registers

namespace Machine

/-- Every policy reads the words of group eight by the operation of their low nibble, and reads
them alike. -/
theorem decodeUnder_arithmetic (policy : UnknownWords) (word : Opcode)
    (operation : ArithmeticOperation) (group : word.group = 0x8)
    (selected : word.nibble = operation.nibble) :
    Instruction.decodeUnder policy word =
      .ok (some (.arithmetic operation word.first word.second)) := by
  have found := (ArithmeticOperation.ofNibble?_eq_some_iff _ operation).mpr selected.symm
  cases policy <;>
    simp only [Instruction.decodeUnder, Instruction.decode, Instruction.ofOpcodeRelaxed?,
      Instruction.ofOpcode?, group, found, Option.map_some, Except.map]

/-- A step that comes to a word of group eight performs its operation on the registers, and always
succeeds. -/
theorem step_of_arithmetic (machine : Machine) (operation : ArithmeticOperation)
    (active : machine.Active) (inside : machine.InMemory) (group : machine.nextWord.group = 0x8)
    (selected : machine.nextWord.nibble = operation.nibble) :
    machine.step.result = .ok .quiet ∧
      machine.step.machine.registers =
        machine.registers.combine operation machine.nextWord.first machine.nextWord.second := by
  have decoded :=
    decodeUnder_arithmetic machine.config.unknown machine.nextWord operation group selected
  rw [step_eq_of_transition machine _ (.executed _ _ active inside decoded rfl)]
  refine ⟨rfl, ?_⟩
  rw [Effect.machine_complete]
  rfl

/-- A step that comes to a word `8XYN` with the nibble `N` of an operation succeeds. If the flag
is not the target, target and flag then hold the numbers of the operation on what both operands
held before; if it is, the flag holds what is written last. No other register changes.

The step performs the operation on the registers as they were, so everything else is about these.
The two cases are about the order of the writings, since with the flag as its target an operation
writes one register twice. The machine has to be active and its counter inside memory for the word
to be reached at all; that the operands may coincide costs nothing, because both are read first.
-/
theorem step_computes (machine : Machine) (active : machine.Active) (inside : machine.InMemory)
    (group : machine.nextWord.group = 0x8) (operation : ArithmeticOperation)
    (selected : machine.nextWord.nibble = operation.nibble) :
    let x := machine.nextWord.first
    let a := machine.registers.read x
    let b := machine.registers.read machine.nextWord.second
    let after := machine.step.machine.registers
    machine.step.result = .ok .quiet ∧
      (x ≠ Registers.flag →
        operation.Relates a b (after.read x) (machine.registers.read Registers.flag)
          (after.read Registers.flag)) ∧
      (x = Registers.flag → operation.Retains a b (after.read Registers.flag)) ∧
      ∀ number < Registers.count, number ≠ x → number ≠ Registers.flag →
        after.read number = machine.registers.read number := by
  intro x a b after
  obtain ⟨result, combined⟩ := step_of_arithmetic machine operation active inside group selected
  have target : x < Registers.count := machine.nextWord.first_lt
  refine ⟨result, ?_, ?_, ?_⟩
  · intro apart
    dsimp only [after]
    rw [combined]
    exact machine.registers.relates_combine operation x _ target apart
  · intro flagged
    dsimp only [after, a]
    rw [combined, show machine.nextWord.first = Registers.flag from flagged, flagged]
    exact machine.registers.retains_combine operation _
  · intro number within apart unflagged
    dsimp only [after]
    rw [combined]
    exact machine.registers.read_combine_of_ne operation x _ number target within apart
      fun _ => unflagged

/-- A machine that comes to a word, with small numbers in two registers and 200 in the
flag. -/
def reckoner (high low : UInt8) : Machine :=
  { (powerOn {} (Entropy.cycle #[])).after [.load [high, low]] with
    registers := ((Registers.zero.write 1 3).write 2 5).write Registers.flag 200 }

/-- Three is taken from a flag of 200 without a borrow, and the flag added to itself is its
own carry. -/
theorem reckoner_computes :
    ((reckoner 0x81 0xF7).step.result = .ok .quiet ∧
        (reckoner 0x81 0xF7).step.machine.registers.read 1 = 197 ∧
        (reckoner 0x81 0xF7).step.machine.registers.read Registers.flag = 1 ∧
        (reckoner 0x81 0xF7).step.machine.registers.read 2 = 5) ∧
      (reckoner 0x8F 0xF4).step.machine.registers.read Registers.flag = 1 := by
  obtain ⟨less, more⟩ : (reckoner 0x81 0xF7).nextWord = 0x81F7 ∧
      (reckoner 0x8F 0xF4).nextWord = 0x8FF4 := by
    decide +kernel
  obtain ⟨result, related, _, others⟩ := step_computes (reckoner 0x81 0xF7) nofun
    (by decide +kernel) (by rw [less]; decide) .subtractReversed (by rw [less]; decide)
  obtain ⟨_, _, retained, _⟩ := step_computes (reckoner 0x8F 0xF4) nofun
    (by decide +kernel) (by rw [more]; decide) .add (by rw [more]; decide)
  obtain ⟨three, five, minuend, flag⟩ : (reckoner 0x81 0xF7).registers.read 1 = 3 ∧
      (reckoner 0x81 0xF7).registers.read 2 = 5 ∧
      (reckoner 0x81 0xF7).registers.read 15 = 200 ∧
      (reckoner 0x8F 0xF4).registers.read 15 = 200 := by
    decide +kernel
  rw [less, show (0x81F7 : Opcode).first = 1 by decide,
    show (0x81F7 : Opcode).second = 15 by decide, three, minuend] at related
  rw [more, show (0x8FF4 : Opcode).first = 15 by decide,
    show (0x8FF4 : Opcode).second = 15 by decide, flag] at retained
  obtain ⟨target, borrow⟩ := related (by decide)
  refine ⟨⟨result, ?_, borrow, ?_⟩, ?_⟩
  · exact UInt8.toNat_inj.mp (Int.ofNat_inj.mp target)
  · rw [others 2 (by decide) (by rw [less]; decide) (by decide), five]
  · exact UInt8.toNat_inj.mp (retained rfl)

end Machine

end Chip8
