import Chip8.Proofs.Text.Tokens

/-!
# Wording of instructions, faults and statuses

Every wording stays on one line and is made of few characters. A fault and a status are found
again from their wording: alternatives begin differently, and a number that is quoted ends
where the text goes on.
-/

namespace Chip8

/-- Texts on one line stay on it when they are put behind each other, with a separator that is on
it too. The induction takes one part off the front together with the separator behind it. -/
theorem newline_not_mem_intercalate (separator : String) (parts : List String)
    (between : '\n' ∉ separator.toList) (each : ∀ part ∈ parts, '\n' ∉ part.toList) :
    '\n' ∉ (String.intercalate separator parts).toList := by
  induction parts with
  | nil => simp
  | cons part rest inductionHypothesis =>
    obtain ⟨first, others⟩ := List.forall_mem_cons.mp each
    cases rest with
    | nil => simpa using first
    | cons next later =>
      rw [String.intercalate_cons_cons]
      simpa [first, between] using inductionHypothesis others

/-- A marked hexadecimal number is on one line, since a line end is none of its characters. -/
@[simp] theorem newline_not_mem_hex (width value : Nat) :
    '\n' ∉ (Numeral.hex width value).toList := fun member =>
  absurd (Numeral.mem_markedSymbols_of_mem_hex width value _ member) (by decide)

/-- A bare hexadecimal number is on one line, for the same reason. -/
@[simp] theorem newline_not_mem_bareHex (value : Nat) :
    '\n' ∉ (Numeral.bareHex value).toList := fun member =>
  absurd (Numeral.mem_symbols_of_mem_bareHex value _ member) (by decide)

/-- A decimal number is on one line, for the same reason. -/
@[simp] theorem newline_not_mem_decimal (value : Nat) :
    '\n' ∉ (Numeral.decimal value).toList := fun member =>
  absurd (Numeral.mem_symbols_of_mem_decimal value _ member) (by decide)

/-- The characters of operands: those of numbers, and the letters and brackets of named resources.
Neither a comma nor a space nor a line end is among them. -/
def Operand.symbols : List Char := "VI[]DTSK".toList ++ Numeral.markedSymbols

/-- An operand is written with its own characters. Only four forms of operand quote a number; all
others are fixed spellings and can be looked through. -/
theorem Operand.mem_symbols_of_mem_text (operand : Operand) :
    ∀ char ∈ operand.text.toList, char ∈ symbols := by
  have numeral : ∀ char ∈ Numeral.markedSymbols, char ∈ symbols := fun char member =>
    List.mem_append_right _ member
  have digit : ∀ char ∈ Numeral.symbols, char ∈ symbols := fun char member =>
    numeral char (List.mem_cons_of_mem _ member)
  intro char member
  cases operand with
  | register number =>
    rw [text, String.toList_append, List.mem_append] at member
    rcases member with mark | behind
    · have letter : char = 'V' := by simpa using mark
      rw [letter]
      decide
    · exact digit char (Numeral.mem_symbols_of_mem_bareHex number char behind)
  | byte value => exact numeral char (Numeral.mem_markedSymbols_of_mem_hex 2 _ char member)
  | address value => exact numeral char (Numeral.mem_markedSymbols_of_mem_hex 3 value char member)
  | height value => exact digit char (Numeral.mem_symbols_of_mem_decimal value char member)
  | _ => exact List.contains_iff_mem.mp (List.all_eq_true.mp (by decide) char member)

namespace Instruction

/-- A mnemonic is in capital letters, so it ends at the first space of an instruction's text, and
a line end is not in it. -/
theorem isUpper_of_mem_mnemonic (instruction : Instruction) :
    ∀ char ∈ instruction.mnemonic.toList, char.isUpper = true := by
  cases instruction with
  | arithmetic operation x y => cases operation <;> simp [mnemonic, ArithmeticOperation.mnemonic]
  | _ => simp [mnemonic]

/-- The written form of an instruction is on one line. This is known of the mnemonic and of the
operands by their characters, and the separators in between are no line ends. -/
@[simp] theorem newline_not_mem_text (instruction : Instruction) :
    '\n' ∉ instruction.text.toList := by
  have first : '\n' ∉ instruction.mnemonic.toList := fun member =>
    absurd (isUpper_of_mem_mnemonic instruction _ member) (by decide)
  have others : ∀ part ∈ instruction.operands.map Operand.text, '\n' ∉ part.toList := by
    intro part member
    obtain ⟨operand, -, rfl⟩ := List.mem_map.mp member
    exact fun character =>
      absurd (operand.mem_symbols_of_mem_text _ character) (by decide)
  have joined := newline_not_mem_intercalate ", " _ (by simp) others
  unfold text
  split
  · exact first
  · simpa [first] using joined

end Instruction

/-- The wording of an opcode fault determines the fault. The kinds begin differently, an unknown
word is a number of its own, and of an address and a length the first ends at its comma. -/
theorem OpcodeFault.message_injective (left right : OpcodeFault)
    (same : left.message = right.message) : left = right := by
  -- The two kinds of fault differ in their first letter.
  have first := congrArg (fun text => text.toList.head?) same
  unfold message at same first
  cases left with
  | unsupported opcode =>
    cases right with
    | unsupported other =>
      dsimp only at same
      rw [String.append_left_inj, String.append_right_inj] at same
      rw [UInt16.toNat_inj.mp (Numeral.hex_injective 4 _ _ same)]
    | outOfBounds address length => simp at first
  | outOfBounds address length =>
    cases right with
    | unsupported other => simp at first
    | outOfBounds otherAddress otherLength =>
      have token (value : Nat) : ',' ∉ (Numeral.hex 4 value).toList := fun member =>
        absurd (Numeral.mem_markedSymbols_of_mem_hex 4 value _ member) (by decide)
      dsimp only at same
      rw [String.append_assoc, String.append_assoc, String.append_assoc, String.append_assoc,
        String.append_right_inj] at same
      obtain ⟨addresses, lengths⟩ := token_unique (token address) (token otherAddress)
        (by simp [GoesOnWith]) (by simp [GoesOnWith]) same
      rw [String.append_right_inj] at lengths
      rw [Numeral.hex_injective 4 _ _ addresses, Numeral.decimal_injective _ _ lengths]

/-- The wording of a fatal fault is on one line: fixed words around numbers. -/
@[simp] theorem Fault.newline_not_mem_message (fault : Fault) :
    '\n' ∉ fault.message.toList := by
  cases fault with
  | opcode cause =>
    unfold message OpcodeFault.message
    cases cause <;> simp
  | stack cause =>
    unfold message StackFault.message
    cases cause <;> simp

/-- The wording of a stack fault determines the fault, since there are only two. -/
theorem StackFault.message_injective (left right : StackFault)
    (same : left.message = right.message) : left = right := by
  cases left <;> cases right <;> simp [message] at same <;> rfl

/-- The wording of a fatal fault determines the fault. What is quoted inside determines its cause,
and the kind of cause can be read off a fixed place of the text. -/
theorem Fault.message_injective (left right : Fault) (same : left.message = right.message) :
    left = right := by
  -- The two kinds of fault differ behind their first word.
  have second := congrArg (fun text => text.toList[8]?) same
  unfold message at same second
  cases left with
  | opcode cause =>
    cases right with
    | opcode other =>
      rw [String.append_left_inj, String.append_right_inj] at same
      rw [OpcodeFault.message_injective cause other same]
    | stack other => simp at second
  | stack cause =>
    cases right with
    | opcode other => simp at second
    | stack other =>
      rw [String.append_left_inj, String.append_right_inj] at same
      rw [StackFault.message_injective cause other same]

/-- A status in words is on one line, also where it quotes a fault. -/
@[simp] theorem Dump.newline_not_mem_statusText (status : Status) :
    '\n' ∉ (statusText status).toList := by
  unfold statusText
  cases status <;> simp

/-- A status in words determines the status: the kinds differ in their first letter, and a
register or a fault that is quoted determines itself. -/
theorem Dump.statusText_injective (left right : Status)
    (same : statusText left = statusText right) : left = right := by
  have first := congrArg (fun text => text.toList.head?) same
  unfold statusText at same first
  cases left with
  | running => cases right <;> simp at first ⊢
  | awaitingKey register =>
    cases right with
    | awaitingKey other =>
      rw [String.append_right_inj] at same
      rw [Numeral.bareHex_injective _ _ same]
    | _ => simp at first
  | halted fault =>
    cases right with
    | halted other =>
      rw [String.append_left_inj, String.append_right_inj] at same
      rw [Fault.message_injective _ _ same]
    | _ => simp at first

end Chip8
