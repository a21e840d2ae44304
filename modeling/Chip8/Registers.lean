import Chip8.Instruction.Basic

/-!
# Registers

Sixteen byte registers. A register number is taken modulo sixteen, which decoded
operands never exceed. The last register is also the flag: an operation that has
a flag writes both its target and the flag, and where the two coincide the later
write is the one that stays.

Addition writes the flag last. The subtractions and shifts write their target
last. Both operands are read before either write.
-/

namespace Chip8

/-- The number of registers. -/
abbrev Registers.count : Nat := 16

/-- The register that carries and borrows are reported in. -/
abbrev Registers.flag : Nat := 15

/-- The registers by number, always sixteen of them. -/
structure Registers where
  cells : Vector UInt8 Registers.count
  deriving DecidableEq

namespace Registers

/-- All registers at zero. -/
def zero : Registers := ⟨Vector.replicate count 0⟩

/-- The value of a register. Its number is wrapped, so that every number is allowed. -/
def read (registers : Registers) (number : Nat) : UInt8 :=
  registers.cells[Fin.ofNat count number]

/-- Replaces the value of a register. -/
def write (registers : Registers) (number : Nat) (value : UInt8) : Registers :=
  ⟨registers.cells.set (Fin.ofNat count number) value⟩

/-- The values of registers zero to `last`. -/
def upTo (registers : Registers) (last : Nat) : List UInt8 :=
  (List.range (last + 1)).map registers.read

/-- Replaces the registers from a number on by values in their order. -/
def writeFrom (registers : Registers) (first : Nat) : List UInt8 → Registers
  | [] => registers
  | value :: rest => (registers.write first value).writeFrom (first + 1) rest

/-- Performs an operation on two registers, the first being its target. Both operands are taken
before anything is written, and the order of the writings matters only where the target is the
flag. -/
def combine (registers : Registers) (operation : ArithmeticOperation) (x y : Nat) : Registers :=
  let a := registers.read x
  let b := registers.read y
  match operation with
  | .assign => registers.write x b
  | .or => registers.write x (a ||| b)
  | .and => registers.write x (a &&& b)
  | .xor => registers.write x (a ^^^ b)
  | .add => (registers.write x (a + b)).write flag (decide (256 ≤ a.toNat + b.toNat)).toUInt8
  | .subtract => (registers.write flag (decide (b < a)).toUInt8).write x (a - b)
  | .shiftRight => (registers.write flag (a % 2)).write x (a / 2)
  | .subtractReversed => (registers.write flag (decide (a < b)).toUInt8).write x (b - a)
  | .shiftLeft => (registers.write flag (a / 128)).write x (a + a)

/-- A written value is read from its register and from no other. -/
theorem read_write (registers : Registers) (number other : Nat) (value : UInt8) :
    (registers.write number value).read other =
      if number % count = other % count then value else registers.read other := by
  simp [read, write, Vector.getElem_set]

/-- A written register holds the value, whatever the number wraps to. -/
theorem read_write_self (registers : Registers) (number : Nat) (value : UInt8) :
    (registers.write number value).read number = value := by
  rw [read_write, if_pos rfl]

/-- Register files that read alike are equal. Only sixteen numbers have to be compared. -/
theorem ext_read (left right : Registers)
    (alike : ∀ number, number < count → left.read number = right.read number) :
    left = right := by
  obtain ⟨leftCells⟩ := left
  obtain ⟨rightCells⟩ := right
  congr
  apply Vector.ext
  intro number bound
  simpa [read, Nat.mod_eq_of_lt bound] using alike number bound

/-- As many values as registers up to the last one. -/
@[simp] theorem length_upTo (registers : Registers) (last : Nat) :
    (registers.upTo last).length = last + 1 := by
  simp [upTo]

/-- The values stand in the order of their registers. -/
theorem getElem_upTo (registers : Registers) (last number : Nat)
    (inside : number < (registers.upTo last).length) :
    (registers.upTo last)[number] = registers.read number := by
  simp [upTo]

/-- Values written from a register on are read from their registers, and the registers before and
behind them are unchanged. The values have to fit behind the first register; the induction is on
them, with a register before, at or behind the one that is written. -/
theorem read_writeFrom (registers : Registers) (first : Nat) (values : List UInt8) (number : Nat)
    (fits : first + values.length ≤ count) (inside : number < count) :
    (registers.writeFrom first values).read number =
      if first ≤ number then values[number - first]?.getD (registers.read number)
      else registers.read number := by
  induction values generalizing registers first with
  | nil => simp [writeFrom]
  | cons value rest inductionHypothesis =>
    simp only [List.length_cons] at fits
    rw [writeFrom, inductionHypothesis _ _ (by omega), read_write,
      Nat.mod_eq_of_lt (by omega : first < count), Nat.mod_eq_of_lt inside]
    by_cases before : number < first
    · have later : ¬ first + 1 ≤ number := by omega
      have earlier : ¬ first ≤ number := by omega
      have other : first ≠ number := by omega
      simp only [later, earlier, other, if_false]
    · by_cases here : first = number
      · subst here
        have passed : ¬ first + 1 ≤ first := by omega
        simp [passed]
      · have behind : number - first = number - (first + 1) + 1 := by omega
        have after : first + 1 ≤ number := by omega
        have reached : first ≤ number := by omega
        simp only [here, after, reached, if_true, if_false, behind, List.getElem?_cons_succ]

end Registers

end Chip8
