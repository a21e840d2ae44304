import Chip8.Proofs.Instruction.Fields
import Chip8.Proofs.Text.Wording

/-!
# What the written form tells

The written form of an instruction is read from the left. A mnemonic is in capital letters, so
it ends at the first space; an operand holds no comma, so the operands are found again; and
an operand is read back from its spelling, because every form of operand has characters that
no other form has, or more of them. Mnemonic and operands are the instruction: whoever knows the
form of the operands needs the mnemonic only where several instructions share that form.

A word is then determined as far as its instruction determines it: in the strict set wholly,
and in the relaxed set up to the low nibble of the register skips.
-/

namespace Chip8

namespace Operand

/-- The operand of a spelling. Digits without a mark are a height. Marked numbers of two digits
are bytes, because an address has more. Every other form is known by its first characters. -/
def ofText? (text : List Char) : Option Operand :=
  if text.all Char.isDigit then some (.height (Numeral.valueOf 10 text))
  else
    match text with
    | 'V' :: number => some (.register (Numeral.valueOf 16 number))
    | '0' :: 'x' :: number =>
      if number.length = 2 then some (.byte (Numeral.valueOf 16 number).toUInt8)
      else some (.address (Numeral.valueOf 16 number))
    | ['I'] => some .index
    | ['[', 'I', ']'] => some .indexed
    | ['D', 'T'] => some .delay
    | ['S', 'T'] => some .sound
    | ['K'] => some .key
    | ['F'] => some .glyph
    | ['B'] => some .digits
    | _ => none

/-- Every operand is read back from its spelling. Numbers are read at any width; what has to be
shown is that the forms do not meet, and that is a question of length for a byte and an address,
and of characters for a height. -/
theorem ofText?_text (operand : Operand) : ofText? operand.text.toList = some operand := by
  cases operand with
  | register number => simp [text, ofText?, Numeral.bareHex, Numeral.valueOf_digits]
  | byte value =>
    have exact := Numeral.length_padded 16 2 value.toNat (by decide) value.toNat_lt
    simp [text, ofText?, Numeral.hex, Numeral.valueOf_padded, exact]
  | address value =>
    have long := Numeral.width_le_length_padded 16 3 value
    have longer : (Numeral.padded 16 3 value).length ≠ 2 := by omega
    simp [text, ofText?, Numeral.hex, Numeral.valueOf_padded, longer]
  | height value =>
    have numeral : (Numeral.decimal value).toList.all Char.isDigit = true :=
      List.all_eq_true.mpr (Numeral.isDigit_of_mem_decimal value)
    unfold ofText? text
    dsimp only
    rw [if_pos numeral, Numeral.decimal, String.toList_ofList,
      Numeral.valueOf_digits 10 value (by decide) (by decide)]
  | _ => rfl

/-- The spelling of an operand determines the operand, because reading it gives the operand back.
No two forms are compared. -/
theorem text_injective {left right : Operand} (same : left.text = right.text) :
    left = right := by
  apply Option.some.inj
  rw [← ofText?_text left, same, ofText?_text right]

/-- An operand holds no comma, so a comma ends it. -/
theorem comma_not_mem_text (operand : Operand) : ',' ∉ operand.text.toList := fun member =>
  absurd (operand.mem_symbols_of_mem_text _ member) (by decide)

/-- What stands behind a mnemonic: a space and the operands, or nothing at all. -/
def listText : List Operand → String
  | [] => ""
  | operands => " " ++ String.intercalate ", " (operands.map text)

/-- Behind a mnemonic there is nothing or a space, so the mnemonic ends there. -/
theorem goesOnWith_listText (operands : List Operand) : GoesOnWith ' ' (listText operands) := by
  cases operands <;> simp [GoesOnWith, listText]

/-- Operands that are written behind each other are told apart, and so is how many there are. They
are tokens between commas; only the list without operands is different, as it has not even the
space. -/
theorem listText_injective (left right : List Operand) (same : listText left = listText right) :
    left = right := by
  cases left with
  | nil =>
    cases right with
    | nil => rfl
    | cons other others => simp [listText, ← String.toList_inj] at same
  | cons operand rest =>
    cases right with
    | nil => simp [listText, ← String.toList_inj] at same
    | cons other others =>
      have tokens (operands : List Operand) :
          ∀ part ∈ operands.map text, ',' ∉ part.toList :=
        List.forall_mem_map.mpr fun operand _ => operand.comma_not_mem_text
      simp only [listText, String.append_right_inj] at same
      have texts := intercalate_injective (by decide) _ _ _ _ (tokens (operand :: rest))
        (tokens (other :: others)) same
      exact (List.map_inj_right fun _ _ => text_injective).mp texts

end Operand

/-- The operation between registers that a mnemonic names. The mnemonics of loading and of adding
name other instructions as well, with other operands. -/
def ArithmeticOperation.ofMnemonic? : String → Option ArithmeticOperation
  | "LD" => some .assign
  | "OR" => some .or
  | "AND" => some .and
  | "XOR" => some .xor
  | "ADD" => some .add
  | "SUB" => some .subtract
  | "SHR" => some .shiftRight
  | "SUBN" => some .subtractReversed
  | "SHL" => some .shiftLeft
  | _ => none

namespace Instruction

/-- The instruction of a mnemonic and operands. Most forms of operands belong to one instruction,
whatever stands in front of them. Only a byte behind a register, two registers, a lone register, a
lone address and no operand at all are shared, and instructions that share one of these have
different mnemonics. -/
def ofParts? (mnemonic : String) : List Operand → Option Instruction
  | [] =>
    match mnemonic with
    | "CLS" => some clearScreen
    | "RET" => some returnFromCall
    | _ => none
  | [.address value] =>
    match mnemonic with
    | "SYS" => some (hostRoutine value)
    | "JP" => some (jump value)
    | "CALL" => some (call value)
    | _ => none
  | [.register x] =>
    match mnemonic with
    | "SKP" => some (skipIfPressed x)
    | "SKNP" => some (skipUnlessPressed x)
    | _ => none
  | [.register x, .byte value] =>
    match mnemonic with
    | "SE" => some (skipIfValue x value)
    | "SNE" => some (skipUnlessValue x value)
    | "LD" => some (loadValue x value)
    | "ADD" => some (addValue x value)
    | "RND" => some (random x value)
    | _ => none
  | [.register x, .register y] =>
    match mnemonic with
    | "SE" => some (skipIfSame x y)
    | "SNE" => some (skipIfDifferent x y)
    | _ => (ArithmeticOperation.ofMnemonic? mnemonic).map (arithmetic · x y)
  | [.register x, .register y, .height height] => some (draw x y height)
  | [.register _, .address base] => some (jumpWithOffset base)
  | [.index, .address address] => some (loadIndex address)
  | [.index, .register x] => some (advanceIndex x)
  | [.register x, .delay] => some (readDelay x)
  | [.delay, .register x] => some (startDelay x)
  | [.sound, .register x] => some (startSound x)
  | [.register x, .key] => some (awaitKey x)
  | [.glyph, .register x] => some (pointAtGlyph x)
  | [.digits, .register x] => some (storeDigits x)
  | [.indexed, .register x] => some (storeRegisters x)
  | [.register x, .indexed] => some (loadRegisters x)
  | _ => none

/-- Every instruction is found again from its mnemonic and its operands. There is nothing to
compare: each case evaluates to the branch of its own form. -/
theorem ofParts?_parts (instruction : Instruction) :
    ofParts? instruction.mnemonic instruction.operands = some instruction := by
  cases instruction with
  | arithmetic operation x y => cases operation <;> rfl
  | _ => rfl

/-- Mnemonic and operands determine the instruction, since it is found again from them. So no pair
of instructions that share a mnemonic is looked at. -/
theorem eq_of_parts (left right : Instruction) (mnemonics : left.mnemonic = right.mnemonic)
    (operands : left.operands = right.operands) : left = right := by
  apply Option.some.inj
  rw [← ofParts?_parts left, mnemonics, operands, ofParts?_parts right]

/-- An instruction is written as its mnemonic and what stands behind it, also without operands. -/
theorem text_eq (instruction : Instruction) :
    instruction.text = instruction.mnemonic ++ Operand.listText instruction.operands := by
  unfold text
  split
  · next bare => rw [bare, Operand.listText, String.append_empty]
  · next operated =>
    rw [Operand.listText, String.append_assoc]
    exact operated

/-- The written form of an instruction determines the instruction. The mnemonic is a token in
front of a space, and what stands behind it is a list of operands between commas. -/
theorem text_injective (left right : Instruction) (same : left.text = right.text) :
    left = right := by
  have word (instruction : Instruction) : ' ' ∉ instruction.mnemonic.toList := fun member =>
    absurd (isUpper_of_mem_mnemonic instruction _ member) (by decide)
  rw [text_eq, text_eq] at same
  obtain ⟨mnemonics, lists⟩ := token_unique (word left) (word right)
    (Operand.goesOnWith_listText _) (Operand.goesOnWith_listText _) same
  exact eq_of_parts left right mnemonics (Operand.listText_injective _ _ lists)

/-- An instruction that does not compare registers is decoded from one word only, its own. The
hypothesis is the one of `decodeUnder_eq_ok_some_iff`: comparisons have sixteen words each. -/
theorem eq_of_ofOpcodeRelaxed? (opcode other : Opcode) (instruction : Instruction)
    (single : instruction.comparesRegisters = false)
    (decoded : ofOpcodeRelaxed? opcode = some instruction)
    (alsoDecoded : ofOpcodeRelaxed? other = some instruction) : opcode = other := by
  have written := ((decodeUnder_eq_ok_some_iff .skip opcode instruction single).mp
    (congrArg Except.ok decoded)).2
  have alsoWritten := ((decodeUnder_eq_ok_some_iff .skip other instruction single).mp
    (congrArg Except.ok alsoDecoded)).2
  exact UInt16.toNat_inj.mp (written.symm.trans alsoWritten)

end Instruction

/-- Both words compare the same two registers in the same way, whatever their low nibbles. -/
def Opcode.ComparesLike (opcode other : Opcode) : Prop :=
  (opcode.group = 0x5 ∧ other.group = 0x5 ∨ opcode.group = 0x9 ∧ other.group = 0x9) ∧
    opcode.first = other.first ∧ opcode.second = other.second

namespace Instruction

/-- Every word of group five compares its registers for equality, and no other word does. What is
read from a word tells its group, so the second half needs no search through the groups. -/
theorem ofOpcodeRelaxed?_eq_skipIfSame_iff (opcode : Opcode) (x y : Nat) :
    ofOpcodeRelaxed? opcode = some (.skipIfSame x y) ↔
      opcode.group = 0x5 ∧ opcode.first = x ∧ opcode.second = y := by
  constructor
  · intro decoded
    have read := readFrom_ofOpcodeRelaxed? opcode
    rw [decoded] at read
    cases read with
    | skipIfSame group => exact ⟨group, rfl, rfl⟩
  · rintro ⟨group, rfl, rfl⟩
    simp only [ofOpcodeRelaxed?, group]

/-- Every word of group nine compares its registers for difference, and no other word does. -/
theorem ofOpcodeRelaxed?_eq_skipIfDifferent_iff (opcode : Opcode) (x y : Nat) :
    ofOpcodeRelaxed? opcode = some (.skipIfDifferent x y) ↔
      opcode.group = 0x9 ∧ opcode.first = x ∧ opcode.second = y := by
  constructor
  · intro decoded
    have read := readFrom_ofOpcodeRelaxed? opcode
    rw [decoded] at read
    cases read with
    | skipIfDifferent group => exact ⟨group, rfl, rfl⟩
  · rintro ⟨group, rfl, rfl⟩
    simp only [ofOpcodeRelaxed?, group]

/-- Two words that decode in the relaxed set decode to one instruction exactly if they are the
same word or compare the same registers in the same way. An instruction that is no comparison has
one word; a comparison is known by its group and its registers, which are all that it has from its
word. -/
theorem eq_iff_of_ofOpcodeRelaxed? (opcode other : Opcode)
    (instruction otherInstruction : Instruction)
    (decoded : ofOpcodeRelaxed? opcode = some instruction)
    (otherDecoded : ofOpcodeRelaxed? other = some otherInstruction) :
    instruction = otherInstruction ↔ opcode = other ∨ opcode.ComparesLike other := by
  constructor
  · rintro rfl
    cases compares : instruction.comparesRegisters with
    | false =>
      exact .inl (eq_of_ofOpcodeRelaxed? opcode other instruction compares decoded otherDecoded)
    | true =>
      right
      cases instruction <;> simp only [comparesRegisters, Bool.false_eq_true] at compares
      case skipIfSame x y =>
        obtain ⟨group, rfl, rfl⟩ := (ofOpcodeRelaxed?_eq_skipIfSame_iff opcode x y).mp decoded
        obtain ⟨otherGroup, first, second⟩ :=
          (ofOpcodeRelaxed?_eq_skipIfSame_iff other _ _).mp otherDecoded
        exact ⟨.inl ⟨group, otherGroup⟩, first.symm, second.symm⟩
      case skipIfDifferent x y =>
        obtain ⟨group, rfl, rfl⟩ :=
          (ofOpcodeRelaxed?_eq_skipIfDifferent_iff opcode x y).mp decoded
        obtain ⟨otherGroup, first, second⟩ :=
          (ofOpcodeRelaxed?_eq_skipIfDifferent_iff other _ _).mp otherDecoded
        exact ⟨.inr ⟨group, otherGroup⟩, first.symm, second.symm⟩
  · rintro (rfl | ⟨both, first, second⟩)
    · exact Option.some.inj (decoded.symm.trans otherDecoded)
    · apply Option.some.inj
      rw [← decoded, ← otherDecoded]
      rcases both with ⟨group, otherGroup⟩ | ⟨group, otherGroup⟩ <;>
        simp only [ofOpcodeRelaxed?, group, otherGroup, first, second]

/-- What `decode` accepts is the strict set, and nothing is changed on the way. -/
theorem ofOpcode?_of_decode (opcode : Opcode) (instruction : Instruction)
    (decoded : decode opcode = .ok instruction) : ofOpcode? opcode = some instruction := by
  unfold decode at decoded
  split at decoded
  · next found => rw [found, Except.ok.inj decoded]
  · contradiction

/-- The written form is unambiguous. Instructions with arbitrary operands are equal if they are
written alike. Words of the strict set are equal if their instructions are written alike, and
words of the relaxed set are then equal up to the low nibble of a comparison of two registers.

The text is read from the left: the mnemonic ends at the first space, the operands are tokens
between commas, each is read back from its spelling, and these parts are the instruction. A strict
word is the word of its instruction; in the relaxed set only comparisons are decoded from more
words than their own. -/
theorem written_apart :
    (∀ left right : Instruction, left.text = right.text → left = right) ∧
      (∀ (opcode other : Opcode) (instruction otherInstruction : Instruction),
        decode opcode = .ok instruction → decode other = .ok otherInstruction →
          instruction.text = otherInstruction.text → opcode = other) ∧
      ∀ (opcode other : Opcode) (instruction otherInstruction : Instruction),
        ofOpcodeRelaxed? opcode = some instruction →
          ofOpcodeRelaxed? other = some otherInstruction →
            (instruction.text = otherInstruction.text ↔
              opcode = other ∨ opcode.ComparesLike other) := by
  refine ⟨text_injective, ?_, ?_⟩
  · intro opcode other instruction otherInstruction decoded otherDecoded same
    have written := word_of_ofOpcode? opcode _ (ofOpcode?_of_decode opcode _ decoded)
    have otherWritten := word_of_ofOpcode? other _ (ofOpcode?_of_decode other _ otherDecoded)
    rw [← UInt16.toNat_inj, ← written, ← otherWritten, text_injective _ _ same]
  · intro opcode other instruction otherInstruction decoded otherDecoded
    rw [← eq_iff_of_ofOpcodeRelaxed? opcode other _ _ decoded otherDecoded]
    exact ⟨text_injective _ _, congrArg text⟩

/-- Two comparisons that differ in their low nibble are written alike, and so they are not both
in the strict set. Two forms of loading, whose operands look alike, are not. -/
theorem comparisons_written_alike :
    (skipIfSame 0x1 0x2).text = "SE V1, V2" ∧
      ofOpcodeRelaxed? 0x5120 = some (.skipIfSame 0x1 0x2) ∧
      ofOpcodeRelaxed? 0x512F = some (.skipIfSame 0x1 0x2) ∧
      Opcode.ComparesLike 0x5120 0x512F ∧
      ¬(decode 0x5120 = .ok (.skipIfSame 0x1 0x2) ∧ decode 0x512F = .ok (.skipIfSame 0x1 0x2)) ∧
      (loadValue 0x1 0x02).text ≠ (arithmetic .assign 0x1 0x2).text := by
  obtain ⟨instructions, strict, relaxed⟩ := written_apart
  have plain : ofOpcodeRelaxed? 0x5120 = some (.skipIfSame 0x1 0x2) := by decide
  have marked : ofOpcodeRelaxed? 0x512F = some (.skipIfSame 0x1 0x2) := by decide
  refine ⟨by decide +kernel, plain, marked, ?_, ?_, ?_⟩
  · exact ((relaxed _ _ _ _ plain marked).mp rfl).resolve_left (by decide)
  · rintro ⟨decoded, otherDecoded⟩
    exact absurd (strict _ _ _ _ decoded otherDecoded rfl) (by decide)
  · intro same
    exact absurd (instructions _ _ same) (by decide)

end Instruction

end Chip8
