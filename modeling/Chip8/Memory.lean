/-!
# Memory

4096 bytes under twelve-bit addresses. Every number is an address: it is taken
modulo the size of the memory, so a transfer that runs past the last byte goes
on at the first. A reading or writing of a block is a reading or writing of its
bytes in order.

The two laws of a single byte determine every transfer. A block of at most 4096
bytes has no address twice, so it is read back as it was written.
-/

namespace Chip8

/-- Bytes of memory. -/
abbrev Memory.capacity : Nat := 4096

/-- Where programs are placed and where execution begins. -/
abbrev Memory.programStart : Nat := 0x200

/-- Bytes from the program start to the end of memory. -/
abbrev Memory.programCapacity : Nat := capacity - programStart

/-- The bytes by address. There are always as many of them as addresses, so no reading can miss.
-/
structure Memory where
  cells : Vector UInt8 Memory.capacity

namespace Memory

/-- Memories are compared along the list of their bytes, which a proof can
evaluate in full. -/
instance : DecidableEq Memory := fun left right =>
  decidable_of_iff (left.cells.toList = right.cells.toList) (by
    cases left
    cases right
    simp [Vector.toList_inj])

/-- Memory of zeros. -/
def zero : Memory := ⟨Vector.replicate capacity 0⟩

/-- The byte at a wrapped address. Every number is allowed, and the last byte is followed by the
first. -/
def read (memory : Memory) (address : Nat) : UInt8 :=
  memory.cells[Fin.ofNat capacity address]

/-- Replaces the byte at a wrapped address, and no other. -/
def write (memory : Memory) (address : Nat) (value : UInt8) : Memory :=
  ⟨memory.cells.set (Fin.ofNat capacity address) value⟩

/-- The bytes from an address on, wrapping at the end of memory. A block that is longer than
memory would show some bytes twice. -/
def readBlock (memory : Memory) (start length : Nat) : List UInt8 :=
  (List.range length).map fun offset => memory.read (start + offset)

/-- Writes bytes from an address on, wrapping at the end of memory. They are written in order, so
of two bytes for one address the later stays. -/
def writeBlock (memory : Memory) (start : Nat) : List UInt8 → Memory
  | [] => memory
  | byte :: rest => (memory.write start byte).writeBlock (start + 1) rest

/-- All bytes, address zero first. This is the data that words are fetched from, where nothing
wraps. -/
def bytes (memory : Memory) : Array UInt8 := memory.cells.toArray

/-- There are as many bytes as addresses. -/
@[simp] theorem size_bytes (memory : Memory) : memory.bytes.size = capacity :=
  memory.cells.size_toArray

/-- A number and its remainder are the same address. -/
@[simp] theorem read_mod (memory : Memory) (address : Nat) :
    memory.read (address % capacity) = memory.read address := by
  simp [read]

/-- A written byte is read at its address and at no other. Both addresses are compared as they are
after wrapping. -/
theorem read_write (memory : Memory) (address other : Nat) (value : UInt8) :
    (memory.write address value).read other =
      if address % capacity = other % capacity then value else memory.read other := by
  simp [read, write, Vector.getElem_set]

/-- A byte inside memory is the one that reading it gives. -/
theorem getElem_bytes (memory : Memory) (address : Nat) (inside : address < memory.bytes.size) :
    memory.bytes[address] = memory.read address := by
  have bound : address < capacity := by simpa using inside
  simp [bytes, read, Nat.mod_eq_of_lt bound]

/-- Memories that read alike are equal. Only the addresses inside memory have to be compared. -/
theorem ext_read (left right : Memory)
    (alike : ∀ address, address < capacity → left.read address = right.read address) :
    left = right := by
  obtain ⟨leftCells⟩ := left
  obtain ⟨rightCells⟩ := right
  congr
  apply Vector.ext
  intro address bound
  simpa [read, Nat.mod_eq_of_lt bound] using alike address bound

/-- A block of reads has the requested length. -/
@[simp] theorem length_readBlock (memory : Memory) (start length : Nat) :
    (memory.readBlock start length).length = length := by
  simp [readBlock]

/-- The bytes of a block are read one address after the other. -/
theorem getElem_readBlock (memory : Memory) (start length offset : Nat)
    (inside : offset < (memory.readBlock start length).length) :
    (memory.readBlock start length)[offset] = memory.read (start + offset) := by
  simp [readBlock]

/-- Memories that agree along a block give the same block, whatever they hold elsewhere. -/
theorem readBlock_congr (left right : Memory) (start length : Nat)
    (alike : ∀ offset < length, left.read (start + offset) = right.read (start + offset)) :
    left.readBlock start length = right.readBlock start length := by
  unfold readBlock
  apply List.map_congr_left
  intro offset member
  exact alike offset (List.mem_range.mp member)

/-- Where memories agree they agree behind a block that is written to both. The induction is on
the block; each byte lands at the same address in both. -/
theorem read_writeBlock_congr (left right : Memory) (start : Nat) (bytes : List UInt8)
    (address : Nat) (alike : left.read address = right.read address) :
    (left.writeBlock start bytes).read address = (right.writeBlock start bytes).read address := by
  induction bytes generalizing left right start with
  | nil => exact alike
  | cons byte rest inductionHypothesis =>
    apply inductionHypothesis
    rw [read_write, read_write, alike]

/-- How many addresses upwards from a start another address lies, past the end of memory if need
be. It is the place of the address in a block from there. -/
def distance (start address : Nat) : Nat := (address + capacity - start % capacity) % capacity

/-- A written block is read at its addresses, and memory is unchanged elsewhere. No address occurs
twice in a block that fits into memory. The induction is on the block: its first byte is at
distance zero, and of every other address the distance to the rest is one less. -/
theorem read_writeBlock (memory : Memory) (start : Nat) (bytes : List UInt8) (address : Nat)
    (fits : bytes.length ≤ capacity) :
    (memory.writeBlock start bytes).read address =
      bytes[distance start address]?.getD (memory.read address) := by
  induction bytes generalizing memory start with
  | nil => rfl
  | cons byte rest inductionHypothesis =>
    simp only [List.length_cons] at fits
    rw [writeBlock, inductionHypothesis _ _ (by omega), read_write]
    by_cases first : start % capacity = address % capacity
    · have here : distance start address = 0 := by
        simp only [distance, capacity] at first ⊢
        omega
      have beyond : rest.length ≤ distance (start + 1) address := by
        simp only [distance, capacity] at first fits ⊢
        omega
      simp [first, here, List.getElem?_eq_none beyond]
    · have further : distance start address = distance (start + 1) address + 1 := by
        simp only [distance, capacity] at first ⊢
        omega
      simp [first, further]

end Memory

end Chip8
