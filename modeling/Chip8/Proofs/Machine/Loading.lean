import Chip8.Proofs.Machine.Exchange
import Chip8.Proofs.Machine.Transfers

/-!
# Loading programs

Programs are written over each other from the program start on. Behind any number of them a
byte is that of the last accepted program that is long enough to reach it, so the last
accepted program stands in memory as a whole, and what a longer one had behind its end is
still there. A refused program is none of them.

Nothing but memory is ever touched, and no machine is in a state in which it cannot be
loaded.
-/

namespace Chip8

namespace Memory

/-- The program is placed, unless it is longer than 3584 bytes. This is what loading makes of
memory, told without a refusal. -/
def placed (memory : Memory) (program : List UInt8) : Memory :=
  if program.length ≤ 3584 then memory.writeBlock programStart program else memory

/-- The programs of at most 3584 bytes, in order. Whether a program is accepted depends on nothing
but its length. -/
def accepted (programs : List (List UInt8)) : List (List UInt8) :=
  programs.filter fun program => program.length ≤ 3584

/-- The last accepted program that is long enough for an offset. A shorter one that was loaded
later does not matter there. -/
def reaching? (programs : List (List UInt8)) (offset : Nat) : Option (List UInt8) :=
  ((accepted programs).filter fun program => offset < program.length).getLast?

/-- One more program reaches an offset, or leaves it to the others. -/
theorem reaching?_concat (programs : List (List UInt8)) (program : List UInt8) (offset : Nat) :
    reaching? (programs ++ [program]) offset =
      if program.length ≤ 3584 ∧ offset < program.length then some program
      else reaching? programs offset := by
  by_cases fits : program.length ≤ 3584
  · by_cases long : offset < program.length <;>
      simp [reaching?, accepted, List.filter_append, fits, long]
  · simp [reaching?, accepted, List.filter_append, fits]

/-- The last accepted program reaches every offset inside of it, since no later one is accepted.
-/
theorem reaching?_of_last (programs : List (List UInt8)) (program : List UInt8) (offset : Nat)
    (last : (accepted programs).getLast? = some program) (inside : offset < program.length) :
    reaching? programs offset = some program := by
  obtain ⟨earlier, split⟩ := List.getLast?_eq_some_iff.mp last
  simp [reaching?, split, List.filter_append, inside]

/-- A placed program is read from the program start on, and behind its end memory is as it was. It
fits between the program start and the end of memory, so no byte of it wraps. -/
theorem read_placed (memory : Memory) (program : List UInt8) (offset : Nat)
    (inside : offset < 3584) :
    (memory.placed program).read (programStart + offset) =
      if program.length ≤ 3584 then
        program[offset]?.getD (memory.read (programStart + offset))
      else memory.read (programStart + offset) := by
  unfold placed
  split
  · next fits =>
    have room : program.length ≤ capacity := Nat.le_trans fits (by decide)
    rw [read_writeBlock memory programStart program _ room,
      distance_add programStart offset (Nat.lt_of_lt_of_le inside (by decide))]
  · rfl

/-- In front of the program start a placed program changes nothing, for the same reason. -/
theorem read_placed_below (memory : Memory) (program : List UInt8) (address : Nat)
    (below : address < programStart) :
    (memory.placed program).read address = memory.read address := by
  unfold placed
  split
  · next fits =>
    simp only [programStart] at below
    apply read_writeBlock_elsewhere memory programStart program address
    · simp only [capacity]
      omega
    · intro offset within
      simp only [programStart, capacity]
      omega
  · rfl

/-- Behind programs that were placed one after the other, each byte is that of the last accepted
one that reaches it. The induction is on the last program: it writes the byte, or it leaves what
the earlier ones have made of it. -/
theorem read_foldl_placed (memory : Memory) (programs : List (List UInt8)) (offset : Nat)
    (inside : offset < 3584) :
    (programs.foldl placed memory).read (programStart + offset) =
      ((reaching? programs offset).bind (·[offset]?)).getD
        (memory.read (programStart + offset)) := by
  induction programs using List.reverseRecOn with
  | nil => rfl
  | append_singleton earlier program inductionHypothesis =>
    rw [List.foldl_concat, read_placed _ _ _ inside, inductionHypothesis, reaching?_concat]
    by_cases fits : program.length ≤ 3584
    · by_cases long : offset < program.length
      · simp [fits, long]
      · simp [fits, long]
    · simp [fits]

/-- In front of the program start memory is as it was, however many programs are placed. -/
theorem read_foldl_placed_below (memory : Memory) (programs : List (List UInt8)) (address : Nat)
    (below : address < programStart) :
    (programs.foldl placed memory).read address = memory.read address := by
  induction programs generalizing memory with
  | nil => rfl
  | cons program later inductionHypothesis =>
    rw [List.foldl_cons, inductionHypothesis, read_placed_below memory program address below]

end Memory

/-- The answer to a program: it is refused by its size and the limit if it is longer than 3584
bytes. -/
def Reply.toProgram (program : List UInt8) : Reply :=
  .loaded (if program.length ≤ 3584 then .ok () else .error (.tooLarge program.length 3584))

namespace Machine

/-- Loading places a program and answers it. Both are functions of the program alone, apart from
the memory that it is placed into. -/
theorem obey_load (machine : Machine) (program : List UInt8) :
    (machine.obey (.load program)).machine =
        { machine with memory := machine.memory.placed program } ∧
      (machine.obey (.load program)).reply = .toProgram program := by
  have limit : Memory.programCapacity = 3584 := rfl
  by_cases fits : program.length ≤ 3584
  · simp only [obey, load, Memory.placed, Reply.toProgram, limit, if_pos fits, and_self]
  · simp only [obey, load, Memory.placed, Reply.toProgram, limit, if_neg fits, and_self]

/-- Loading one program after the other places and answers all of them. Nothing but memory is
passed on from one to the next. -/
theorem after_loads (machine : Machine) (programs : List (List UInt8)) :
    machine.after (programs.map .load) =
        { machine with memory := programs.foldl Memory.placed machine.memory } ∧
      machine.replies (programs.map .load) = programs.map .toProgram := by
  induction programs generalizing machine with
  | nil => exact ⟨rfl, rfl⟩
  | cons program later inductionHypothesis =>
    obtain ⟨placed, reply⟩ := obey_load machine program
    obtain ⟨loaded, replies⟩ := inductionHypothesis (machine.obey (.load program)).machine
    rw [List.map_cons, after_cons, replies_cons, List.map_cons, loaded, replies, reply, placed]
    exact ⟨rfl, rfl⟩

/-- A program that is too long leaves the machine as it is. -/
theorem obey_load_of_tooLong (machine : Machine) (program : List UInt8)
    (tooLong : 3584 < program.length) : (machine.obey (.load program)).machine = machine := by
  rw [(obey_load machine program).1, Memory.placed, if_neg (Nat.not_le.mpr tooLong)]

/-- A word of a memory whose two bytes stand inside is read by them. -/
theorem fetch_of_read (memory : Memory) (address : Nat) (high low : UInt8)
    (inside : address + 1 < Memory.capacity) (first : memory.read address = high)
    (second : memory.read (address + 1) = low) :
    ∃ word, Opcode.fetch memory.bytes address = .ok word ∧
      word.toNat = 256 * high.toNat + low.toNat := by
  have stored : address + 1 < memory.bytes.size := by rwa [Memory.size_bytes]
  refine ⟨_, Opcode.fetch_inside memory.bytes address stored, ?_⟩
  rw [Opcode.toNat_ofBytes, Memory.getElem_bytes, Memory.getElem_bytes, first, second]

/-- Programs that are loaded one after the other, into whatever machine, are answered one by one:
each is refused exactly if it has more than 3584 bytes, and then it leaves the machine as it is.
Behind them each byte from the program start on is that of the last accepted program that reaches
it, or the original one; memory in front of the program start and every other component are as
they were. So each two bytes of the last accepted program are fetched as its word, up to the end
of memory.

Loading is split into what it makes of memory and what it answers, and both are followed through
the list. In memory the last write that reaches an address decides, by induction on the last
program. No hypothesis is needed: a machine that waits or has halted is loaded like any other. -/
theorem loads_overlay (machine : Machine) (programs : List (List UInt8)) :
    let loaded := machine.after (programs.map .load)
    machine.replies (programs.map .load) = programs.map .toProgram ∧
      (∀ earlier program later, programs = earlier ++ program :: later → 3584 < program.length →
        machine.after ((earlier ++ [program]).map .load) = machine.after (earlier.map .load)) ∧
      (∀ offset < 3584, loaded.memory.read (0x200 + offset) =
        ((Memory.reaching? programs offset).bind (·[offset]?)).getD
          (machine.memory.read (0x200 + offset))) ∧
      (∀ address < 0x200, loaded.memory.read address = machine.memory.read address) ∧
      loaded = { machine with memory := loaded.memory } ∧
      ∀ program, (Memory.accepted programs).getLast? = some program →
        ∀ offset (inside : offset + 1 < program.length),
          ∃ word, Opcode.fetch loaded.memory.bytes (0x200 + offset) = .ok word ∧
            word.toNat = 256 * program[offset].toNat + program[offset + 1].toNat := by
  intro loaded
  obtain ⟨placed, replies⟩ := after_loads machine programs
  have memory : loaded.memory = programs.foldl Memory.placed machine.memory :=
    congrArg Machine.memory placed
  have overlaid : ∀ offset < 3584, loaded.memory.read (0x200 + offset) =
      ((Memory.reaching? programs offset).bind (·[offset]?)).getD
        (machine.memory.read (0x200 + offset)) := by
    intro offset inside
    rw [memory]
    exact Memory.read_foldl_placed machine.memory programs offset inside
  refine ⟨replies, ?_, overlaid, ?_, ?_, ?_⟩
  · rintro earlier program later - tooLong
    rw [List.map_append, after_append]
    exact obey_load_of_tooLong _ program tooLong
  · intro address below
    rw [memory]
    exact Memory.read_foldl_placed_below machine.memory programs address below
  · rw [memory]
    exact placed
  · intro program last offset inside
    have fits : program.length ≤ 3584 := by
      have member := List.mem_of_getLast? last
      exact of_decide_eq_true (List.mem_filter.mp member).2
    have shown : ∀ place (within : place < program.length),
        loaded.memory.read (0x200 + place) = program[place] := by
      intro place within
      rw [overlaid place (Nat.lt_of_lt_of_le within fits),
        Memory.reaching?_of_last programs program place last within]
      simp [within]
    exact fetch_of_read loaded.memory _ _ _ (by simp only [Memory.capacity]; omega)
      (shown offset (by omega)) (shown (offset + 1) inside)

/-- A machine that halted at its first word. -/
def jammed : Machine :=
  (powerOn { unknown := .halt } (Entropy.cycle #[])).after [.load [0xFF, 0xFF], .step]

/-- Four bytes, a byte more than fits, and two bytes. -/
def patches : List (List UInt8) :=
  [[0x11, 0x22, 0x33, 0x44], List.replicate 3585 0xEE, [0x55, 0x66]]

/-- The two bytes stand in front of what is left of the four, the refused ones are nowhere,
and the machine is as halted as before. A program that fits exactly is fetched up to its
last word. -/
theorem jammed_overlaid :
    let loaded := jammed.after (patches.map .load)
    jammed.status = .halted (.opcode (.unsupported 0xFFFF)) ∧ loaded.status = jammed.status ∧
      loaded.memory.read 0x201 = 0x66 ∧ loaded.memory.read 0x202 = 0x33 ∧
      loaded.memory.read 0x204 = 0 ∧
      ∃ word, Opcode.fetch (jammed.after [.load (List.replicate 3584 0xAB)]).memory.bytes 0xFFE =
          .ok word ∧ word.toNat = 0xABAB := by
  obtain ⟨_, _, overlaid, _, others, _⟩ := loads_overlay jammed patches
  generalize jammed.after (patches.map .load) = loaded at *
  obtain ⟨_, _, _, _, _, fetched⟩ := loads_overlay jammed [List.replicate 3584 0xAB]
  obtain ⟨halted, unwritten⟩ : jammed.status = .halted (.opcode (.unsupported 0xFFFF)) ∧
      jammed.memory.read 0x204 = 0 := by
    decide +kernel
  have accepted : Memory.accepted patches = [[0x11, 0x22, 0x33, 0x44], [0x55, 0x66]] := by
    simp [Memory.accepted, patches, -List.reduceReplicate]
  refine ⟨halted, ?_, ?_, ?_, ?_, ?_⟩
  · rw [others]
  · simpa [Memory.reaching?, accepted] using overlaid 1 (by decide)
  · simpa [Memory.reaching?, accepted] using overlaid 2 (by decide)
  · simpa [Memory.reaching?, accepted, unwritten] using overlaid 4 (by decide)
  · have full : (List.replicate 3584 (0xAB : UInt8)).length = 3584 := List.length_replicate
    obtain ⟨word, found, number⟩ := fetched (List.replicate 3584 0xAB)
      (by simp [Memory.accepted, -List.reduceReplicate]) 3582 (by rw [full]; decide)
    refine ⟨word, found, ?_⟩
    rw [number, List.getElem_replicate, List.getElem_replicate]
    decide

end Machine

end Chip8
