import Chip8.Instruction.Assembly
import Chip8.Instruction.Decode

/-!
# Words of instructions

Every instruction has one word. Strict decoding is exactly the way back: it
yields an instruction precisely for that instruction's word, and only one whose
operands fit their fields. Two words are no host routines although they are
written like one, the words of clearing and of returning.

The way back is shown by the shape of a word. Behind its group a word has an
address, a register and a byte, two registers and a nibble, or a register and a
selector; within a shape all instructions are decoded for the same reason.

The relaxed set gives an instruction to more words, but only the two register
skips gain any. Every other instruction has the same single word in both sets.
-/

namespace Chip8

/-- The operand fits its field of a word. A register and a height have a nibble, an address has
twelve bits; an immediate byte fits by its type, and what has only a name has no field at all. -/
def Operand.Fits : Operand → Prop
  | .register number => number < 16
  | .address value => value < 4096
  | .height value => value < 16
  | _ => True

/-- The low nibble that selects an arithmetic operation. Nine of the sixteen nibbles are in use,
and shifting left stands apart from the others. -/
def ArithmeticOperation.nibble : ArithmeticOperation → Nat
  | .assign => 0x0
  | .or => 0x1
  | .and => 0x2
  | .xor => 0x3
  | .add => 0x4
  | .subtract => 0x5
  | .shiftRight => 0x6
  | .subtractReversed => 0x7
  | .shiftLeft => 0xE

namespace ArithmeticOperation

/-- A nibble selects exactly the operation that it belongs to. So selecting is the inverse of
`nibble`, and no operation is reached from two nibbles. -/
theorem ofNibble?_eq_some_iff (selector : Nat) (operation : ArithmeticOperation) :
    ofNibble? selector = some operation ↔ operation.nibble = selector := by
  constructor
  · intro selected
    unfold ofNibble? at selected
    split at selected <;> cases selected <;> rfl
  · intro same
    rw [← same]
    cases operation <;> rfl

/-- Selectors are nibbles. -/
theorem nibble_lt (operation : ArithmeticOperation) : operation.nibble < 16 := by
  cases operation <;> decide

end ArithmeticOperation

/-- The group and the address of a word are those that it is composed of. The bound keeps the
address out of the group; with it both fields are a quotient and a remainder that division
determines. -/
theorem Opcode.fields_of_address (opcode : Opcode) (group address : Nat)
    (bounded : address < 4096) (written : opcode.toNat = 4096 * group + address) :
    opcode.group = group ∧ opcode.address = address := by
  rw [Opcode.group, Opcode.address]
  omega

/-- The group, the first nibble and the number of the low byte of a word are those that it is
composed of. Each bound keeps a field from reaching into the next one. -/
theorem Opcode.fields_of_selector (opcode : Opcode) (group first selector : Nat)
    (firstBounded : first < 16) (selectorBounded : selector < 256)
    (written : opcode.toNat = 4096 * group + 256 * first + selector) :
    opcode.group = group ∧ opcode.first = first ∧ opcode.byte.toNat = selector := by
  rw [Opcode.toNat_byte, Opcode.group, Opcode.first]
  omega

/-- An immediate byte is the low byte of the word that it is written into. It is a selector that
fits by its type, so only the register needs a bound. -/
theorem Opcode.fields_of_byte (opcode : Opcode) (group first : Nat) (byte : UInt8)
    (bounded : first < 16) (written : opcode.toNat = 4096 * group + 256 * first + byte.toNat) :
    opcode.group = group ∧ opcode.first = first ∧ opcode.byte = byte := by
  rw [← UInt8.toNat_inj]
  exact opcode.fields_of_selector group first byte.toNat bounded byte.toNat_lt written

/-- The fields of a word of nibbles are those that it is composed of. A nibble of sixteen or more
would be a carry into the field in front of it, so all three are bounded. -/
theorem Opcode.fields_of_nibbles (opcode : Opcode) (group first second nibble : Nat)
    (firstBounded : first < 16) (secondBounded : second < 16) (nibbleBounded : nibble < 16)
    (written : opcode.toNat = 4096 * group + 256 * first + 16 * second + nibble) :
    opcode.group = group ∧ opcode.first = first ∧ opcode.second = second ∧
      opcode.nibble = nibble := by
  rw [Opcode.group, Opcode.first, Opcode.second, Opcode.nibble]
  omega

namespace Instruction

/-- The number of an instruction's word. Operands are added without being cut to their fields, so
the word means something only for an instruction whose operands fit. -/
def word : Instruction → Nat
  | hostRoutine address => address
  | clearScreen => 0x00E0
  | returnFromCall => 0x00EE
  | jump target => 0x1000 + target
  | call target => 0x2000 + target
  | skipIfValue x value => 0x3000 + 0x100 * x + value.toNat
  | skipUnlessValue x value => 0x4000 + 0x100 * x + value.toNat
  | skipIfSame x y => 0x5000 + 0x100 * x + 0x10 * y
  | loadValue x value => 0x6000 + 0x100 * x + value.toNat
  | addValue x value => 0x7000 + 0x100 * x + value.toNat
  | arithmetic operation x y => 0x8000 + 0x100 * x + 0x10 * y + operation.nibble
  | skipIfDifferent x y => 0x9000 + 0x100 * x + 0x10 * y
  | loadIndex address => 0xA000 + address
  | jumpWithOffset base => 0xB000 + base
  | random x mask => 0xC000 + 0x100 * x + mask.toNat
  | draw x y height => 0xD000 + 0x100 * x + 0x10 * y + height
  | skipIfPressed x => 0xE09E + 0x100 * x
  | skipUnlessPressed x => 0xE0A1 + 0x100 * x
  | readDelay x => 0xF007 + 0x100 * x
  | awaitKey x => 0xF00A + 0x100 * x
  | startDelay x => 0xF015 + 0x100 * x
  | startSound x => 0xF018 + 0x100 * x
  | advanceIndex x => 0xF01E + 0x100 * x
  | pointAtGlyph x => 0xF029 + 0x100 * x
  | storeDigits x => 0xF033 + 0x100 * x
  | storeRegisters x => 0xF055 + 0x100 * x
  | loadRegisters x => 0xF065 + 0x100 * x

/-- Every operand fits its field. A decoded instruction always has this, an arbitrary one need
not. -/
def Fits (instruction : Instruction) : Prop := ∀ operand ∈ instruction.operands, operand.Fits

/-- The instruction is what its word stands for: its operands fit, and it is not a host routine
under the word of another instruction. Two host routines are lost that way, those at the words of
clearing the screen and of returning. -/
def Encodable (instruction : Instruction) : Prop :=
  instruction.Fits ∧ instruction ≠ .hostRoutine 0x0E0 ∧ instruction ≠ .hostRoutine 0x0EE

/-- The fields of a word recompose it, from the outside inwards: a group in front of an address, a
register in front of a byte, a register in front of a nibble. Every law about a decoded word is
linear arithmetic over these three equations. -/
theorem fields_recompose (opcode : Opcode) :
    4096 * opcode.group + opcode.address = opcode.toNat ∧
      256 * opcode.first + opcode.byte.toNat = opcode.address ∧
      16 * opcode.second + opcode.nibble = opcode.byte.toNat := by
  simp only [Opcode.group, Opcode.address, Opcode.first, Opcode.toNat_byte, Opcode.second,
    Opcode.nibble]
  omega

/-- Group zero keeps the address of its words. The two words with a meaning of their own have it
written into their encoding, and a host routine carries it as its operand. -/
theorem word_ofScreenGroup (opcode : Opcode) : (ofScreenGroup opcode).word = opcode.address := by
  unfold ofScreenGroup
  split
  · next written => exact written.symm
  · next written => exact written.symm
  · rfl

/-- Group fourteen keeps the address of its words: the register and the selector recompose it. The
split follows the selectors, and each of them is the low byte that `word` writes down. -/
theorem word_of_ofKeypadGroup? (opcode : Opcode) (instruction : Instruction)
    (decoded : ofKeypadGroup? opcode = some instruction) :
    instruction.word = 0xE000 + opcode.address := by
  have recomposed := (fields_recompose opcode).2.1
  unfold ofKeypadGroup? at decoded
  split at decoded <;> cases decoded <;> simp only [word] <;> omega

/-- Group fifteen keeps the address of its words, by the same argument: the register and the
selector recompose it. -/
theorem word_of_ofTransferGroup? (opcode : Opcode) (instruction : Instruction)
    (decoded : ofTransferGroup? opcode = some instruction) :
    instruction.word = 0xF000 + opcode.address := by
  have recomposed := (fields_recompose opcode).2.1
  unfold ofTransferGroup? at decoded
  split at decoded <;> cases decoded <;> simp only [word] <;> omega

/-- A strictly decoded instruction has the word that it was decoded from. The split follows the
groups. In each of them the operands are fields, and the fields recompose the word; the register
skips need that their low nibble was zero, and an arithmetic operation that its nibble selected
it. -/
theorem word_of_ofOpcode? (opcode : Opcode) (instruction : Instruction)
    (decoded : ofOpcode? opcode = some instruction) : instruction.word = opcode.toNat := by
  obtain ⟨whole, lower, lowest⟩ := fields_recompose opcode
  unfold ofOpcode? at decoded
  split at decoded
  case h_1 group =>
    cases decoded
    rw [word_ofScreenGroup]
    omega
  case h_9 group =>
    obtain ⟨operation, selected, rfl⟩ := Option.map_eq_some_iff.mp decoded
    rw [ArithmeticOperation.ofNibble?_eq_some_iff] at selected
    simp only [word]
    omega
  case h_15 group =>
    rw [word_of_ofKeypadGroup? opcode instruction decoded]
    omega
  case h_16 group =>
    rw [word_of_ofTransferGroup? opcode instruction decoded]
    omega
  case h_6 group | h_10 group =>
    obtain ⟨zero, known⟩ := Option.ite_none_right_eq_some.mp decoded
    cases known
    simp only [word]
    omega
  case h_17 => contradiction
  all_goals
    cases decoded
    simp only [word]
    omega

/-- A word of group zero decodes to an encodable instruction. A host routine is only what is left
when the two other words are ruled out, which is why it is not under one of them. -/
theorem encodable_ofScreenGroup (opcode : Opcode) : (ofScreenGroup opcode).Encodable := by
  have bound := opcode.address_lt
  unfold ofScreenGroup
  split
  · simp [Encodable, Fits, operands]
  · simp [Encodable, Fits, operands]
  · next notClear notReturn =>
    refine ⟨?_, fun same => notClear ?_, fun same => notReturn ?_⟩
    · simpa [Fits, operands, Operand.Fits] using bound
    · simpa using same
    · simpa using same

/-- Decoding in the strict set yields only encodable instructions, since operands are fields of
the word and a field is below its own bound. Only group zero has host routines, so only there the
second half of encodability is more than a difference of constructors. -/
theorem encodable_of_ofOpcode? (opcode : Opcode) (instruction : Instruction)
    (decoded : ofOpcode? opcode = some instruction) : instruction.Encodable := by
  have address := opcode.address_lt
  have first := opcode.first_lt
  have second := opcode.second_lt
  have nibble := opcode.nibble_lt
  unfold ofOpcode? at decoded
  split at decoded
  case h_1 =>
    cases decoded
    exact encodable_ofScreenGroup opcode
  case h_6 | h_10 =>
    cases (Option.ite_none_right_eq_some.mp decoded).2
    simp [Encodable, Fits, operands, Operand.Fits, first, second]
  case h_9 =>
    obtain ⟨operation, _, rfl⟩ := Option.map_eq_some_iff.mp decoded
    simp [Encodable, Fits, operands, Operand.Fits, first, second]
  case h_15 =>
    unfold ofKeypadGroup? at decoded
    split at decoded <;> cases decoded <;>
      simp [Encodable, Fits, operands, Operand.Fits, first]
  case h_16 =>
    unfold ofTransferGroup? at decoded
    split at decoded <;> cases decoded <;>
      simp [Encodable, Fits, operands, Operand.Fits, first]
  case h_17 => contradiction
  all_goals
    cases decoded
    simp [Encodable, Fits, operands, Operand.Fits, address, first, second, nibble]

/-- Instructions whose word is a group with an address behind it. -/
inductive AddressShape : Nat → Nat → Instruction → Prop where
  | jump (target : Nat) : AddressShape 0x1 target (.jump target)
  | call (target : Nat) : AddressShape 0x2 target (.call target)
  | loadIndex (target : Nat) : AddressShape 0xA target (.loadIndex target)
  | jumpWithOffset (base : Nat) : AddressShape 0xB base (.jumpWithOffset base)

/-- Instructions whose word is a group, a register and an immediate byte. -/
inductive ByteShape : Nat → Nat → UInt8 → Instruction → Prop where
  | skipIfValue (x : Nat) (value : UInt8) : ByteShape 0x3 x value (.skipIfValue x value)
  | skipUnlessValue (x : Nat) (value : UInt8) : ByteShape 0x4 x value (.skipUnlessValue x value)
  | loadValue (x : Nat) (value : UInt8) : ByteShape 0x6 x value (.loadValue x value)
  | addValue (x : Nat) (value : UInt8) : ByteShape 0x7 x value (.addValue x value)
  | random (x : Nat) (mask : UInt8) : ByteShape 0xC x mask (.random x mask)

/-- Instructions whose word is a group, two registers and a nibble. The nibble is an operand of
drawing, it selects an arithmetic operation, and it is zero for the register skips. -/
inductive NibbleShape : Nat → Nat → Nat → Nat → Instruction → Prop where
  | skipIfSame (x y : Nat) : NibbleShape 0x5 x y 0 (.skipIfSame x y)
  | arithmetic (operation : ArithmeticOperation) (x y : Nat) :
      NibbleShape 0x8 x y operation.nibble (.arithmetic operation x y)
  | skipIfDifferent (x y : Nat) : NibbleShape 0x9 x y 0 (.skipIfDifferent x y)
  | draw (x y height : Nat) : NibbleShape 0xD x y height (.draw x y height)

/-- Instructions whose word is a group, a register and a low byte that selects the instruction
inside of the group. -/
inductive SelectorShape : Nat → Nat → Nat → Instruction → Prop where
  | skipIfPressed (x : Nat) : SelectorShape 0xE x 0x9E (.skipIfPressed x)
  | skipUnlessPressed (x : Nat) : SelectorShape 0xE x 0xA1 (.skipUnlessPressed x)
  | readDelay (x : Nat) : SelectorShape 0xF x 0x07 (.readDelay x)
  | awaitKey (x : Nat) : SelectorShape 0xF x 0x0A (.awaitKey x)
  | startDelay (x : Nat) : SelectorShape 0xF x 0x15 (.startDelay x)
  | startSound (x : Nat) : SelectorShape 0xF x 0x18 (.startSound x)
  | advanceIndex (x : Nat) : SelectorShape 0xF x 0x1E (.advanceIndex x)
  | pointAtGlyph (x : Nat) : SelectorShape 0xF x 0x29 (.pointAtGlyph x)
  | storeDigits (x : Nat) : SelectorShape 0xF x 0x33 (.storeDigits x)
  | storeRegisters (x : Nat) : SelectorShape 0xF x 0x55 (.storeRegisters x)
  | loadRegisters (x : Nat) : SelectorShape 0xF x 0x65 (.loadRegisters x)

section Shapes

variable {opcode : Opcode} {instruction : Instruction} {group first second nibble : Nat}

/-- A word of group zero is its own address, so it is decoded by that address alone. -/
theorem ofOpcode?_of_screenWord {address : Nat} (bounded : address < 4096)
    (written : opcode.toNat = address) :
    ofOpcode? opcode = some (ofScreenGroup opcode) ∧ opcode.address = address := by
  obtain ⟨selected, operand⟩ := opcode.fields_of_address 0x0 address bounded (by omega)
  exact ⟨by simp only [ofOpcode?, selected], operand⟩

/-- A word with an address is decoded as the instruction that it was composed for. The bound
keeps the address out of the group. -/
theorem AddressShape.decoded {address : Nat} (shape : AddressShape group address instruction)
    (bounded : address < 4096) (written : opcode.toNat = 4096 * group + address) :
    ofOpcode? opcode = some instruction := by
  obtain ⟨selected, operand⟩ := opcode.fields_of_address group address bounded written
  cases shape <;> simp only [ofOpcode?, selected, operand]

/-- A word with an immediate byte is decoded as the instruction that it was composed for. -/
theorem ByteShape.decoded {value : UInt8} (shape : ByteShape group first value instruction)
    (bounded : first < 16)
    (written : opcode.toNat = 4096 * group + 256 * first + value.toNat) :
    ofOpcode? opcode = some instruction := by
  obtain ⟨selected, register, byte⟩ := opcode.fields_of_byte group first value bounded written
  cases shape <;> simp only [ofOpcode?, selected, register, byte]

/-- A word of nibbles is decoded as the instruction that it was composed for. The nibble of an
arithmetic operation selects that operation, and the register skips are decoded because theirs
is zero. -/
theorem NibbleShape.decoded (shape : NibbleShape group first second nibble instruction)
    (firstBounded : first < 16) (secondBounded : second < 16) (nibbleBounded : nibble < 16)
    (written : opcode.toNat = 4096 * group + 256 * first + 16 * second + nibble) :
    ofOpcode? opcode = some instruction := by
  obtain ⟨selected, left, right, lowest⟩ := opcode.fields_of_nibbles group first second nibble
    firstBounded secondBounded nibbleBounded written
  cases shape with
  | skipIfSame => simp only [ofOpcode?, selected, left, right, lowest, if_true]
  | arithmetic operation =>
    have known := (ArithmeticOperation.ofNibble?_eq_some_iff _ operation).mpr rfl
    simp only [ofOpcode?, selected, left, right, lowest, known, Option.map_some]
  | skipIfDifferent => simp only [ofOpcode?, selected, left, right, lowest, if_true]
  | draw => simp only [ofOpcode?, selected, left, right, lowest]

/-- A selector is a byte. -/
theorem SelectorShape.selector_lt {selector : Nat}
    (shape : SelectorShape group first selector instruction) : selector < 256 := by
  cases shape <;> decide

/-- A word with a selector is decoded as the instruction that it was composed for. -/
theorem SelectorShape.decoded {selector : Nat}
    (shape : SelectorShape group first selector instruction) (bounded : first < 16)
    (written : opcode.toNat = 4096 * group + 256 * first + selector) :
    ofOpcode? opcode = some instruction := by
  obtain ⟨selected, register, low⟩ :=
    opcode.fields_of_selector group first selector bounded shape.selector_lt written
  cases shape <;> simp only [ofOpcode?, selected, ofKeypadGroup?, ofTransferGroup?, register, low]

end Shapes

/-- An encodable instruction is decoded from its word, because the fields of the word are its
operands: that they fit keeps each of them inside of its own field. Every instruction outside of
group zero has one of the four shapes. Host routines are decoded from every address but the two
that encodability excludes. -/
theorem ofOpcode?_of_word (opcode : Opcode) (instruction : Instruction)
    (encodable : instruction.Encodable) (written : instruction.word = opcode.toNat) :
    ofOpcode? opcode = some instruction := by
  obtain ⟨fits, notClear, notReturn⟩ := encodable
  cases instruction <;>
    simp only [word, Fits, operands, List.forall_mem_cons, Operand.Fits] at written fits
  case hostRoutine address =>
    obtain ⟨decoded, operand⟩ := ofOpcode?_of_screenWord fits.1 written.symm
    rw [decoded, ofScreenGroup, operand]
    split
    · exact absurd rfl notClear
    · exact absurd rfl notReturn
    · rfl
  case clearScreen =>
    obtain ⟨decoded, operand⟩ := ofOpcode?_of_screenWord (by decide) written.symm
    simp only [decoded, ofScreenGroup, operand]
  case returnFromCall =>
    obtain ⟨decoded, operand⟩ := ofOpcode?_of_screenWord (by decide) written.symm
    simp only [decoded, ofScreenGroup, operand]
  case jump target => exact (AddressShape.jump target).decoded fits.1 (by omega)
  case call target => exact (AddressShape.call target).decoded fits.1 (by omega)
  case loadIndex target => exact (AddressShape.loadIndex target).decoded fits.2.1 (by omega)
  case jumpWithOffset base => exact (AddressShape.jumpWithOffset base).decoded fits.2.1 (by omega)
  case skipIfValue x value => exact (ByteShape.skipIfValue x value).decoded fits.1 (by omega)
  case skipUnlessValue x value =>
    exact (ByteShape.skipUnlessValue x value).decoded fits.1 (by omega)
  case loadValue x value => exact (ByteShape.loadValue x value).decoded fits.1 (by omega)
  case addValue x value => exact (ByteShape.addValue x value).decoded fits.1 (by omega)
  case random x mask => exact (ByteShape.random x mask).decoded fits.1 (by omega)
  case skipIfSame x y =>
    exact (NibbleShape.skipIfSame x y).decoded fits.1 fits.2.1 (by decide) (by omega)
  case arithmetic operation x y =>
    exact (NibbleShape.arithmetic operation x y).decoded fits.1 fits.2.1 operation.nibble_lt
      (by omega)
  case skipIfDifferent x y =>
    exact (NibbleShape.skipIfDifferent x y).decoded fits.1 fits.2.1 (by decide) (by omega)
  case draw x y height =>
    exact (NibbleShape.draw x y height).decoded fits.1 fits.2.1 fits.2.2.1 (by omega)
  case skipIfPressed x => exact (SelectorShape.skipIfPressed x).decoded fits.1 (by omega)
  case skipUnlessPressed x => exact (SelectorShape.skipUnlessPressed x).decoded fits.1 (by omega)
  case readDelay x => exact (SelectorShape.readDelay x).decoded fits.1 (by omega)
  case awaitKey x => exact (SelectorShape.awaitKey x).decoded fits.1 (by omega)
  case startDelay x => exact (SelectorShape.startDelay x).decoded fits.2.1 (by omega)
  case startSound x => exact (SelectorShape.startSound x).decoded fits.2.1 (by omega)
  case advanceIndex x => exact (SelectorShape.advanceIndex x).decoded fits.2.1 (by omega)
  case pointAtGlyph x => exact (SelectorShape.pointAtGlyph x).decoded fits.2.1 (by omega)
  case storeDigits x => exact (SelectorShape.storeDigits x).decoded fits.2.1 (by omega)
  case storeRegisters x => exact (SelectorShape.storeRegisters x).decoded fits.2.1 (by omega)
  case loadRegisters x => exact (SelectorShape.loadRegisters x).decoded fits.1 (by omega)

/-- Strict decoding yields an instruction exactly for that instruction's word. Both directions are
facts about fields: those of a word are operands that fit, and operands that fit are the fields of
the word that is composed of them. -/
theorem ofOpcode?_eq_some_iff (opcode : Opcode) (instruction : Instruction) :
    ofOpcode? opcode = some instruction ↔
      instruction.Encodable ∧ instruction.word = opcode.toNat := by
  constructor
  · intro decoded
    exact ⟨encodable_of_ofOpcode? opcode instruction decoded,
      word_of_ofOpcode? opcode instruction decoded⟩
  · rintro ⟨encodable, written⟩
    exact ofOpcode?_of_word opcode instruction encodable written

/-- The instruction compares two registers, and the relaxed set knows more words for it: sixteen
each, one for every low nibble. -/
def comparesRegisters : Instruction → Bool
  | skipIfSame _ _ => true
  | skipIfDifferent _ _ => true
  | _ => false

/-- Under the strict policy a word without an instruction is a fault, and that fault names the
word. Here a machine's decoding is told without the intermediate `decode`. -/
theorem decodeUnder_halt (opcode : Opcode) :
    decodeUnder .halt opcode =
      match ofOpcode? opcode with
      | some instruction => .ok (some instruction)
      | none => .error (.unsupported opcode) := by
  change (decode opcode).map some = _
  unfold decode
  cases ofOpcode? opcode <;> rfl

/-- Whatever a policy decodes is decoded in the relaxed set. The policies differ only in what they
make of a word that has no instruction, so laws of decoded instructions need no case for the
policy. -/
theorem ofOpcodeRelaxed?_of_decodeUnder (policy : UnknownWords) (opcode : Opcode)
    (instruction : Instruction) (decoded : decodeUnder policy opcode = .ok (some instruction)) :
    ofOpcodeRelaxed? opcode = some instruction := by
  cases policy with
  | skip => exact Except.ok.inj decoded
  | halt =>
    apply ofOpcodeRelaxed?_of_ofOpcode?
    rw [decodeUnder_halt] at decoded
    split at decoded
    · next known found =>
      rw [found]
      exact Except.ok.inj decoded
    · contradiction

/-- Under every policy the operands of a decoded instruction fit their fields. For the strict set
this is encodability; the words that only the relaxed set knows have registers as their operands,
and a register is a nibble. -/
theorem fits_of_decodeUnder (policy : UnknownWords) (opcode : Opcode)
    (instruction : Instruction) (decoded : decodeUnder policy opcode = .ok (some instruction)) :
    instruction.Fits := by
  have known := ofOpcodeRelaxed?_of_decodeUnder policy opcode instruction decoded
  unfold ofOpcodeRelaxed? at known
  split at known
  · cases known
    simp [Fits, operands, Operand.Fits, opcode.first_lt, opcode.second_lt]
  · cases known
    simp [Fits, operands, Operand.Fits, opcode.first_lt, opcode.second_lt]
  · exact (encodable_of_ofOpcode? opcode instruction known).1

/-- Apart from the register skips, every policy decodes an instruction from its word and from no
other. The hypothesis is needed: a register skip is decoded from sixteen words in the relaxed set,
and from only one of them in the strict set. -/
theorem decodeUnder_eq_ok_some_iff (policy : UnknownWords) (opcode : Opcode)
    (instruction : Instruction) (single : instruction.comparesRegisters = false) :
    decodeUnder policy opcode = .ok (some instruction) ↔
      instruction.Encodable ∧ instruction.word = opcode.toNat := by
  rw [← ofOpcode?_eq_some_iff]
  constructor
  · intro decoded
    have known := ofOpcodeRelaxed?_of_decodeUnder policy opcode instruction decoded
    unfold ofOpcodeRelaxed? at known
    split at known
    · cases known
      contradiction
    · cases known
      contradiction
    · exact known
  · intro known
    cases policy with
    | skip => exact congrArg Except.ok (ofOpcodeRelaxed?_of_ofOpcode? opcode instruction known)
    | halt => rw [decodeUnder_halt, known]

end Instruction

end Chip8
