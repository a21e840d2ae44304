import Chip8.Proofs.Machine.Writes

/-!
# Transfers between registers and memory

A transfer moves a block of bytes between the first registers and the addresses from the
index register on. No transfer is longer than memory, so none comes to an address twice:
what was stored is loaded again, and what was loaded can be stored without a change. This
holds wherever the index register points, since its wrapping at sixteen bits is a wrapping
of addresses as well.

Additions to the index register move the addresses of the next transfer by their total,
however often they wrap.
-/

namespace Chip8

namespace Memory

/-- An address is as far behind a start as it is counted from there, as long as it is not counted
once around memory. -/
theorem distance_add (start offset : Nat) (inside : offset < capacity) :
    distance start (start + offset) = offset := by
  simp only [distance, capacity] at inside ⊢
  omega

section

variable (memory : Memory) (start : Nat) (bytes : List UInt8) (fits : bytes.length ≤ capacity)

include fits

/-- A written block is read at its own addresses. It must not be longer than memory, because then
its end would lie on its beginning. -/
theorem read_writeBlock_within (offset : Nat) (within : offset < bytes.length) :
    (memory.writeBlock start bytes).read (start + offset) = bytes[offset] := by
  rw [read_writeBlock memory start bytes _ fits,
    distance_add start offset (Nat.lt_of_lt_of_le within fits), List.getElem?_eq_getElem within,
    Option.getD_some]

/-- A written block is read back, byte by byte. -/
theorem readBlock_writeBlock :
    (memory.writeBlock start bytes).readBlock start bytes.length = bytes := by
  apply List.ext_getElem
  · exact length_readBlock _ _ _
  · intro offset inside within
    rw [getElem_readBlock, read_writeBlock_within memory start bytes fits offset within]

end

/-- Writing a block that was read changes nothing. An address of the block receives what was read
there, and the others are not written. -/
theorem writeBlock_readBlock (memory : Memory) (start length : Nat) (fits : length ≤ capacity) :
    memory.writeBlock start (memory.readBlock start length) = memory := by
  apply ext_read
  intro address inside
  rw [read_writeBlock _ _ _ _ (by rwa [length_readBlock])]
  by_cases reached : distance start address < (memory.readBlock start length).length
  · -- The address is the start and its distance from there, wrapped.
    have wrapped : (start + distance start address) % capacity = address := by
      simp only [distance, capacity] at inside ⊢
      omega
    rw [List.getElem?_eq_getElem reached, Option.getD_some, getElem_readBlock, ← read_mod, wrapped]
  · rw [List.getElem?_eq_none (Nat.not_lt.mp reached), Option.getD_none]

/-- One memory is the other with values placed at the addresses of their offsets. The second part
says that nothing else was written. -/
def Receives (before after : Memory) (address : Nat → Nat) (values : List UInt8) : Prop :=
  (∀ offset (within : offset < values.length), after.read (address offset) = values[offset]) ∧
    ∀ other < capacity, (∀ offset < values.length, other ≠ address offset) →
      after.read other = before.read other

/-- A block is received at its addresses, wrapped at the end of memory, if it is no longer than
that. -/
theorem receives_writeBlock (memory : Memory) (start : Nat) (bytes : List UInt8)
    (fits : bytes.length ≤ capacity) :
    memory.Receives (memory.writeBlock start bytes) (fun offset => (start + offset) % capacity)
      bytes := by
  constructor
  · intro offset within
    rw [read_mod, read_writeBlock_within memory start bytes fits offset within]
  · intro other inside elsewhere
    exact read_writeBlock_elsewhere memory start bytes other inside elsewhere

end Memory

/-- Values written from the first register on are the values of their registers, if there are just
as many of them. -/
theorem Registers.upTo_writeFrom (registers : Registers) (values : List UInt8) (last : Nat)
    (inside : last < count) (length : values.length = last + 1) :
    (registers.writeFrom 0 values).upTo last = values := by
  apply List.ext_getElem
  · rw [length_upTo, length]
  · intro number _ within
    rw [getElem_upTo, read_writeFrom registers 0 values number (by omega) (by omega),
      if_pos (Nat.zero_le number), Nat.sub_zero, List.getElem?_eq_getElem within, Option.getD_some]

namespace Machine

/-- The decimal digits of a byte fit into memory, since there are three of them. -/
theorem length_decimalDigits_le_capacity (value : UInt8) :
    (decimalDigits value).length ≤ Memory.capacity := by
  change 3 ≤ Memory.capacity
  decide

/-- The decimal digits of a byte are digits, and make up the byte. A byte has no more than three
of them. -/
theorem decimalDigits_recompose (value : UInt8) :
    ∃ hundreds tens ones : UInt8, decimalDigits value = [hundreds, tens, ones] ∧
      hundreds ≤ 9 ∧ tens ≤ 9 ∧ ones ≤ 9 ∧
      100 * hundreds.toNat + 10 * tens.toNat + ones.toNat = value.toNat := by
  have bound := value.toNat_lt
  refine ⟨_, _, _, rfl, ?_, ?_, ?_, ?_⟩ <;>
    simp only [UInt8.le_iff_toNat_le, UInt8.toNat_div, UInt8.toNat_mod, UInt8.reduceToNat] <;>
    omega

/-- The machine is reached from a start by additions to the index register that amount to a total.
Between them anything may happen that leaves the index register alone. The total is a number of
its own and does not wrap. -/
inductive Advances (start : Machine) : Nat → Machine → Prop where
  | start : start.Advances 0 start
  | added {total : Nat} {machine : Machine} {effect : Effect} (x : Nat)
      (earlier : start.Advances total machine)
      (done : machine.execute (.advanceIndex x) = .ok effect) :
      start.Advances (total + (machine.registers.read x).toNat) effect.machine
  | between {total : Nat} {machine other : Machine} (earlier : start.Advances total machine)
      (kept : other.index = machine.index) : start.Advances total other

/-- One addition moves the index register by the value of its register, wrapping at sixteen bits.
The register is read before the addition. -/
theorem index_of_advanceIndex (machine : Machine) (x : Nat) (effect : Effect)
    (done : machine.execute (.advanceIndex x) = .ok effect) :
    effect.machine.index.toNat =
      (machine.index.toNat + (machine.registers.read x).toNat) % UInt16.size := by
  cases done
  rw [UInt16.toNat_add, UInt8.toNat_toUInt16]

/-- Additions move the index register by their total, wrapping at sixteen bits. The induction is
on how the machine was reached, and wrapping early or late is the same. -/
theorem Advances.index {start machine : Machine} {total : Nat}
    (advances : start.Advances total machine) :
    machine.index.toNat = (start.index.toNat + total) % UInt16.size := by
  induction advances with
  | start => exact (Nat.mod_eq_of_lt start.index.toNat_lt).symm
  | added x _ done reached =>
    rw [index_of_advanceIndex _ _ _ done, reached, Nat.mod_add_mod, Nat.add_assoc]
  | between _ kept reached => rw [kept, reached]

/-- The transfers of a machine use the given addresses, by their offsets: the registers up to the
operand are stored there and loaded from there, and so are the decimal digits of the operand. No
other address is written. That each transfer succeeds is part of it. -/
structure TransfersAt (machine : Machine) (x : Nat) (address : Nat → Nat) : Prop where
  storesRegisters : ∃ stored, machine.execute (.storeRegisters x) = .ok stored ∧
    machine.memory.Receives stored.machine.memory address (machine.registers.upTo x)
  storesDigits : ∃ stored, machine.execute (.storeDigits x) = .ok stored ∧
    machine.memory.Receives stored.machine.memory address
      (decimalDigits (machine.registers.read x))
  loadsRegisters : ∃ loaded, machine.execute (.loadRegisters x) = .ok loaded ∧
    loaded.machine.registers.upTo x =
      (List.range (x + 1)).map fun number => machine.memory.read (address number)

section

variable (machine : Machine) (x : Nat) (inside : x < Registers.count)

include inside

/-- The registers of a transfer fit into memory, since there are at most sixteen of them. -/
theorem length_upTo_le_capacity : (machine.registers.upTo x).length ≤ Memory.capacity := by
  rw [Registers.length_upTo]
  exact Nat.le_trans inside (by decide)

/-- Registers are loaded with the block at the index register, in the order of the addresses. -/
theorem upTo_of_loadRegisters (loaded : Effect)
    (done : machine.execute (.loadRegisters x) = .ok loaded) :
    loaded.machine.registers.upTo x = machine.memory.readBlock machine.index.toNat (x + 1) := by
  cases done
  exact Registers.upTo_writeFrom _ _ x inside (Memory.length_readBlock _ _ _)

/-- Transfers use the addresses from the index register on, each wrapped at the end of memory. -/
theorem transfersAt_index :
    machine.TransfersAt x fun offset => (machine.index.toNat + offset) % Memory.capacity where
  storesRegisters :=
    ⟨_, rfl, machine.memory.receives_writeBlock _ _ (length_upTo_le_capacity machine x inside)⟩
  storesDigits :=
    ⟨_, rfl, machine.memory.receives_writeBlock _ _ (length_decimalDigits_le_capacity _)⟩
  loadsRegisters := by
    refine ⟨_, rfl, (upTo_of_loadRegisters machine x inside _ rfl).trans ?_⟩
    simp only [Memory.readBlock, Memory.read_mod]

/-- Registers that are stored are loaded again by every machine with this memory and this index
register. What else it holds does not matter, least of all its registers. -/
theorem upTo_load_of_stored (stored loaded : Effect) (between : Machine)
    (done : machine.execute (.storeRegisters x) = .ok stored)
    (memory : between.memory = stored.machine.memory)
    (index : between.index = stored.machine.index)
    (again : between.execute (.loadRegisters x) = .ok loaded) :
    loaded.machine.registers.upTo x = machine.registers.upTo x := by
  cases done
  rw [upTo_of_loadRegisters between x inside loaded again, memory, index,
    ← Registers.length_upTo machine.registers x]
  exact machine.memory.readBlock_writeBlock _ _ (length_upTo_le_capacity machine x inside)

/-- Registers that are loaded can be stored without a change of memory, because the block that is
written is the one that was read. -/
theorem memory_store_of_loaded (loaded stored : Effect)
    (done : machine.execute (.loadRegisters x) = .ok loaded)
    (again : loaded.machine.execute (.storeRegisters x) = .ok stored) :
    stored.machine.memory = machine.memory := by
  have block := upTo_of_loadRegisters machine x inside loaded done
  cases done
  cases again
  dsimp only at block ⊢
  rw [block, machine.memory.writeBlock_readBlock _ _ (Nat.le_trans inside (by decide))]

end

/-- Decimal digits that are stored are loaded into the first three registers, the hundreds first.
-/
theorem upTo_load_of_digits (machine : Machine) (x : Nat) (stored loaded : Effect)
    (done : machine.execute (.storeDigits x) = .ok stored)
    (again : stored.machine.execute (.loadRegisters 2) = .ok loaded) :
    loaded.machine.registers.upTo 2 = decimalDigits (machine.registers.read x) := by
  cases done
  rw [upTo_of_loadRegisters _ 2 (by decide) loaded again]
  exact machine.memory.readBlock_writeBlock _ _ (length_decimalDigits_le_capacity _)

/-- Transfers undo each other. What is stored from the registers is loaded into them again,
whatever became of the machine in between, if its memory and its index register stayed; what is
loaded can be stored without a change of memory; and the decimal digits of a register make up its
value again. The index register stays throughout. Behind additions to it the transfers use the
addresses from its start and their total on, wrapped at the end of memory, and a further addition
is always possible.

Each round trip comes down to a block of memory that is written and read at the same addresses. It
fits into memory, since a transfer has at most sixteen bytes, so its addresses are all different
even when they wrap. The operand is the number of a register, which is what makes the block that
short. The additions wrap at sixteen bits and the addresses at twelve; the first makes no
difference to the second. -/
theorem transfers_undo_each_other (machine : Machine) (x : Nat) (inside : x < Registers.count) :
    (∃ stored, machine.execute (.storeRegisters x) = .ok stored ∧
        stored.machine.index = machine.index ∧
        ∀ between : Machine, between.memory = stored.machine.memory →
          between.index = stored.machine.index →
          ∃ loaded, between.execute (.loadRegisters x) = .ok loaded ∧
            loaded.machine.index = machine.index ∧
            loaded.machine.registers.upTo x = machine.registers.upTo x) ∧
      (∃ loaded stored, machine.execute (.loadRegisters x) = .ok loaded ∧
        loaded.machine.execute (.storeRegisters x) = .ok stored ∧
        loaded.machine.index = machine.index ∧ stored.machine.index = machine.index ∧
        stored.machine.memory = machine.memory) ∧
      (∃ stored loaded, machine.execute (.storeDigits x) = .ok stored ∧
        stored.machine.execute (.loadRegisters 2) = .ok loaded ∧
        stored.machine.index = machine.index ∧ loaded.machine.index = machine.index ∧
        ∃ hundreds tens ones, loaded.machine.registers.upTo 2 = [hundreds, tens, ones] ∧
          hundreds ≤ 9 ∧ tens ≤ 9 ∧ ones ≤ 9 ∧
          100 * hundreds.toNat + 10 * tens.toNat + ones.toNat =
            (machine.registers.read x).toNat) ∧
      ∀ (start : Machine) (total : Nat), start.Advances total machine →
        (machine.TransfersAt x fun offset =>
          (start.index.toNat + total + offset) % Memory.capacity) ∧
        ∀ number, ∃ advanced, machine.execute (.advanceIndex number) = .ok advanced := by
  refine ⟨⟨_, rfl, rfl, ?_⟩, ⟨_, _, rfl, rfl, rfl, rfl, ?_⟩, ⟨_, _, rfl, rfl, rfl, rfl, ?_⟩, ?_⟩
  · intro between memory index
    exact ⟨_, rfl, index, upTo_load_of_stored machine x inside _ _ between rfl memory index rfl⟩
  · exact memory_store_of_loaded machine x inside _ _ rfl rfl
  · rw [upTo_load_of_digits machine x _ _ rfl rfl]
    exact decimalDigits_recompose (machine.registers.read x)
  · intro start total advances
    refine ⟨?_, fun number => ⟨_, rfl⟩⟩
    -- Wrapping at sixteen bits first makes no difference to an address.
    have same : ∀ offset, (start.index.toNat + total + offset) % Memory.capacity =
        (machine.index.toNat + offset) % Memory.capacity := by
      intro offset
      rw [advances.index]
      simp only [Memory.capacity, UInt16.size]
      omega
    simp only [same]
    exact transfersAt_index machine x inside

/-- A machine with an index register and sixteen different registers. -/
def porter (index : UInt16) : Machine :=
  { powerOn {} (Entropy.cycle #[]) with
    registers := ⟨#v[1, 2, 3, 4, 5, 6, 7, 8, 9, 10, 11, 12, 13, 14, 15, 255]⟩
    index }

/-- One addition brings the index register to two below its end, a second one behind its
start. -/
theorem advances_porter :
    (porter 0xFFF0).Advances 14 (porter 0xFFFE) ∧ (porter 0xFFF0).Advances 28 (porter 0x000C) := by
  have once : (porter 0xFFF0).Advances 14 (porter 0xFFFE) := .added 13 .start rfl
  exact ⟨once, .added 13 once rfl⟩

/-- Sixteen registers are stored around the end of memory and loaded again by a machine that
lost them, and the digits of the last one make it up again. Behind a total of 28 the first
register goes to the address twelve, and the address behind the last one is spared. -/
theorem porter_carries :
    (∃ stored loaded, (porter 0xFFFE).execute (.storeRegisters 15) = .ok stored ∧
        { stored.machine with registers := .zero }.execute (.loadRegisters 15) = .ok loaded ∧
        loaded.machine.registers.upTo 15 = (porter 0xFFFE).registers.upTo 15) ∧
      (∃ stored loaded, (porter 0xFFFE).execute (.storeDigits 15) = .ok stored ∧
        stored.machine.execute (.loadRegisters 2) = .ok loaded ∧
        ∃ hundreds tens ones, loaded.machine.registers.upTo 2 = [hundreds, tens, ones] ∧
          100 * hundreds.toNat + 10 * tens.toNat + ones.toNat = 255) ∧
      ∃ stored, (porter 0x000C).execute (.storeRegisters 15) = .ok stored ∧
        stored.machine.memory.read 0x00C = 1 ∧ stored.machine.memory.read 0x01C = 0 := by
  obtain ⟨⟨stored, done, _, restored⟩, _, ⟨digits, held, storing, loading, _, _, hundreds, tens,
    ones, found, _, _, _, sum⟩, _⟩ := transfers_undo_each_other (porter 0xFFFE) 15 (by decide)
  obtain ⟨loaded, again, _, same⟩ := restored { stored.machine with registers := .zero } rfl rfl
  obtain ⟨_, _, _, reached⟩ := transfers_undo_each_other (porter 0x000C) 15 (by decide)
  obtain ⟨moved, moving, received, spared⟩ :=
    (reached (porter 0xFFF0) 28 advances_porter.2).1.storesRegisters
  refine ⟨⟨stored, loaded, done, again, same⟩,
    ⟨digits, held, storing, loading, hundreds, tens, ones, found, sum⟩, moved, moving, ?_, ?_⟩
  · exact received 0 (by decide)
  · exact (spared 0x01C (by decide) (by decide)).trans (by decide)

end Machine

end Chip8
