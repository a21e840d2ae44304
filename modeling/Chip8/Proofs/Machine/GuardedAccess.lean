import Chip8.CallStack
import Chip8.Memory
import Chip8.Registers
import Chip8.Screen

/-!
# Guarded access

Registers, memory and the screen take any number and wrap it. The accesses here
do not: a register is reached by its own number, a byte or a pixel by its place,
and outside of the storage there is nothing to read and no storage to write.
Pushing wants room on the stack, and converting to sixteen bits wants a number
that keeps every bit.

Inside its bounds every guarded access is the plain one.
-/

namespace Chip8

/-- The number in sixteen bits, if it needs no more. It has no value where the plain conversion
would lose a bit. -/
def narrow? (number : Nat) : Option UInt16 :=
  if number < UInt16.size then some number.toUInt16 else none

/-- A number of sixteen bits keeps its value. -/
theorem narrow?_eq (number : Nat) (fits : number < UInt16.size) :
    narrow? number = some number.toUInt16 := if_pos fits

/-- Reads that all succeed give the list of what is read. One read that fails would leave no list
at all. -/
theorem mapM_eq_some_map {α β : Type} (read? : α → Option β) (read : α → β) (places : List α)
    (found : ∀ place ∈ places, read? place = some (read place)) :
    places.mapM read? = some (places.map read) := by
  induction places with
  | nil => rfl
  | cons place rest inductionHypothesis =>
    rw [List.mapM_cons, found place List.mem_cons_self,
      inductionHypothesis fun other later => found other (List.mem_cons_of_mem _ later)]
    rfl

namespace Registers

/-- The value of a register that exists. No number is wrapped. -/
def read? (registers : Registers) (number : Nat) : Option UInt8 := registers.cells[number]?

/-- Replaces the value of a register that exists. -/
def write? (registers : Registers) (number : Nat) (value : UInt8) : Option Registers :=
  if inside : number < count then some ⟨registers.cells.set number value⟩ else none

/-- Replaces registers that exist from a number on, and all of them or none. -/
def writeFrom? (registers : Registers) (first : Nat) : List UInt8 → Option Registers
  | [] => some registers
  | value :: rest => do
    let written ← registers.write? first value
    written.writeFrom? (first + 1) rest

/-- Performs an operation on two registers that exist, with the same reads and the same order of
writes as the plain operation. -/
def combine? (registers : Registers) (operation : ArithmeticOperation) (x y : Nat) :
    Option Registers := do
  let a ← registers.read? x
  let b ← registers.read? y
  match operation with
  | .assign => registers.write? x b
  | .or => registers.write? x (a ||| b)
  | .and => registers.write? x (a &&& b)
  | .xor => registers.write? x (a ^^^ b)
  | .add =>
    let added ← registers.write? x (a + b)
    added.write? flag (decide (256 ≤ a.toNat + b.toNat)).toUInt8
  | .subtract =>
    let flagged ← registers.write? flag (decide (b < a)).toUInt8
    flagged.write? x (a - b)
  | .shiftRight =>
    let flagged ← registers.write? flag (a % 2)
    flagged.write? x (a / 2)
  | .subtractReversed =>
    let flagged ← registers.write? flag (decide (a < b)).toUInt8
    flagged.write? x (b - a)
  | .shiftLeft =>
    let flagged ← registers.write? flag (a / 128)
    flagged.write? x (a + a)

/-- A register that exists is read. -/
theorem read?_eq (registers : Registers) (number : Nat) (inside : number < count) :
    registers.read? number = some (registers.read number) := by
  simp [read?, read, Nat.mod_eq_of_lt inside, inside]

/-- A register that exists is written. -/
theorem write?_eq (registers : Registers) (number : Nat) (value : UInt8)
    (inside : number < count) :
    registers.write? number value = some (registers.write number value) := by
  simp [write?, write, Nat.mod_eq_of_lt inside, inside]

/-- Registers that exist are written one after the other. The bound is on the last of them, and
the induction uses it up with each value. -/
theorem writeFrom?_eq (registers : Registers) (first : Nat) (values : List UInt8)
    (fits : first + values.length ≤ count) :
    registers.writeFrom? first values = some (registers.writeFrom first values) := by
  induction values generalizing registers first with
  | nil => rfl
  | cons value rest inductionHypothesis =>
    rw [List.length_cons] at fits
    rw [writeFrom?, write?_eq registers first value (by omega), Option.bind_eq_bind,
      Option.bind_some, inductionHypothesis _ _ (by omega), writeFrom]

/-- An operation on registers that exist is performed. The flag needs no bound of its own, since
it is the last register. -/
theorem combine?_eq (registers : Registers) (operation : ArithmeticOperation) (x y : Nat)
    (target : x < count) (source : y < count) :
    registers.combine? operation x y = some (registers.combine operation x y) := by
  have flagged : flag < count := by decide
  rw [combine?, read?_eq registers x target, read?_eq registers y source]
  cases operation <;>
    simp only [Option.bind_eq_bind, Option.bind_some, write?_eq _ _ _ target,
      write?_eq _ _ _ flagged, combine]

end Registers

namespace Memory

/-- The byte at an address below the end of memory. No address is wrapped. -/
def read? (memory : Memory) (address : Nat) : Option UInt8 := memory.cells[address]?

/-- Replaces the byte at an address below the end of memory. -/
def write? (memory : Memory) (address : Nat) (value : UInt8) : Option Memory :=
  if inside : address < capacity then some ⟨memory.cells.set address value⟩ else none

/-- The bytes from an address on, each at its wrapped address. Wrapping is the instruction's own,
so it is written out here; the read below it does not wrap. -/
def readBlock? (memory : Memory) (start length : Nat) : Option (List UInt8) :=
  (List.range length).mapM fun offset => memory.read? ((start + offset) % capacity)

/-- Writes bytes from an address on, each at its wrapped address, for the same reason. -/
def writeBlock? (memory : Memory) (start : Nat) : List UInt8 → Option Memory
  | [] => some memory
  | byte :: rest => do
    let written ← memory.write? (start % capacity) byte
    written.writeBlock? (start + 1) rest

/-- A wrapped address is read. -/
theorem read?_mod (memory : Memory) (address : Nat) :
    memory.read? (address % capacity) = some (memory.read address) := by
  have inside : address % capacity < capacity := Nat.mod_lt _ (by decide)
  simp [read?, read, inside]

/-- A wrapped address is written. -/
theorem write?_mod (memory : Memory) (address : Nat) (value : UInt8) :
    memory.write? (address % capacity) value = some (memory.write address value) := by
  have inside : address % capacity < capacity := Nat.mod_lt _ (by decide)
  simp [write?, write, inside]

/-- A block is read, however long, because every wrapped address is inside memory. -/
theorem readBlock?_eq (memory : Memory) (start length : Nat) :
    memory.readBlock? start length = some (memory.readBlock start length) :=
  mapM_eq_some_map _ _ _ fun offset _ => memory.read?_mod (start + offset)

/-- A block is written, however long, by induction on its bytes. -/
theorem writeBlock?_eq (memory : Memory) (start : Nat) (bytes : List UInt8) :
    memory.writeBlock? start bytes = some (memory.writeBlock start bytes) := by
  induction bytes generalizing memory start with
  | nil => rfl
  | cons byte rest inductionHypothesis =>
    rw [writeBlock?, write?_mod, Option.bind_eq_bind, Option.bind_some, inductionHypothesis,
      writeBlock]

end Memory

namespace Screen

/-- Inverts the pixel at a place on the screen. Answers whether it was lit. There is no answer for
a place behind the storage. -/
def invert? (screen : Screen) (index : Nat) : Option (Screen × Bool) :=
  if inside : index < resolution then
    some (⟨screen.pixels.set index (!screen.pixels[index])⟩, screen.pixels[index])
  else none

/-- Inverts pixels in order, each at the place of its wrapped position. -/
def flipAll? (screen : Screen) : List (Nat × Nat) → Option (Screen × Bool)
  | [] => some (screen, false)
  | (x, y) :: rest => do
    let (flipped, lit) ← screen.invert? (y % height * width + x % width)
    let (last, collided) ← flipped.flipAll? rest
    some (last, lit || collided)

/-- The place of a wrapped position is on the screen, so inverting it there is flipping. -/
theorem invert?_eq (screen : Screen) (x y : Nat) :
    screen.invert? (y % height * width + x % width) = some (screen.flip x y, screen.isLit x y) :=
  dif_pos (place x y).isLt

/-- Pixels are inverted one after the other. The screen changes under the induction, and its size
does not. -/
theorem flipAll?_eq (screen : Screen) (cells : List (Nat × Nat)) :
    screen.flipAll? cells = some (screen.flipAll cells) := by
  induction cells generalizing screen with
  | nil => rfl
  | cons cell rest inductionHypothesis =>
    obtain ⟨x, y⟩ := cell
    rw [flipAll?, invert?_eq, Option.bind_eq_bind, Option.bind_some]
    dsimp only
    rw [inductionHypothesis]
    rfl

end Screen

/-- Puts an address onto a stack with room. Without room it is no refusal, there is no stack. -/
def CallStack.push? (stack : CallStack) (address : UInt16) : Option CallStack :=
  if room : stack.depth < capacity then some ⟨address :: stack.frames, room⟩ else none

end Chip8
