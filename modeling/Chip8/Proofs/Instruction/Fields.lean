import Chip8.Proofs.Instruction.Encoding

/-!
# Instructions by the fields of their words

Decoding is inverted once, into the cases that a reader of the instruction set knows:
a group, perhaps a selector inside of it, and operands that are fields of the word. The
words that are passed over are cases as well, so whatever is decoded is one of them,
under either policy. A law about words is then a law about these cases.

Only group zero is told apart by whole words. Everywhere else the group and one field
decide, and no two cases share a word.
-/

namespace Chip8

/-- A word of group fifteen under a selector. The nine transfer instructions differ in nothing but
the selector, so each of them is met with one such condition. -/
def Opcode.IsTransfer (opcode : Opcode) (selector : UInt8) : Prop :=
  opcode.group = 0xF ∧ opcode.byte = selector

instance (opcode : Opcode) (selector : UInt8) : Decidable (opcode.IsTransfer selector) :=
  inferInstanceAs (Decidable (_ ∧ _))

/-- A word of group zero is its address. So the two words with a meaning of their own are told
apart from host routines as whole words, which is what a reader of the instruction set sees. -/
theorem Opcode.eq_of_group_zero (opcode other : Opcode) (group : opcode.group = 0)
    (address : opcode.address = other.toNat) : opcode = other := by
  have recomposed := (Instruction.fields_recompose opcode).1
  rw [← UInt16.toNat_inj]
  omega

namespace Instruction

/-- The selectors of group fifteen. Any other low byte makes the word one to pass over. -/
def transferSelectors : List UInt8 := [0x07, 0x0A, 0x15, 0x18, 0x1E, 0x29, 0x33, 0x55, 0x65]

/-- What a word is read as: an instruction whose operands are fields of the word, or nothing,
which is a word to pass over. The cases are those of the relaxed set; the condition of a case is
what has to be seen of the word to be in it. -/
inductive ReadFrom (opcode : Opcode) : Option Instruction → Prop where
  | hostRoutine (group : opcode.group = 0x0) (notClear : opcode ≠ 0x00E0)
      (notReturn : opcode ≠ 0x00EE) : ReadFrom opcode (some (.hostRoutine opcode.address))
  | clearScreen (word : opcode = 0x00E0) : ReadFrom opcode (some .clearScreen)
  | returnFromCall (word : opcode = 0x00EE) : ReadFrom opcode (some .returnFromCall)
  | jump (group : opcode.group = 0x1) : ReadFrom opcode (some (.jump opcode.address))
  | call (group : opcode.group = 0x2) : ReadFrom opcode (some (.call opcode.address))
  | skipIfValue (group : opcode.group = 0x3) :
      ReadFrom opcode (some (.skipIfValue opcode.first opcode.byte))
  | skipUnlessValue (group : opcode.group = 0x4) :
      ReadFrom opcode (some (.skipUnlessValue opcode.first opcode.byte))
  | skipIfSame (group : opcode.group = 0x5) :
      ReadFrom opcode (some (.skipIfSame opcode.first opcode.second))
  | loadValue (group : opcode.group = 0x6) :
      ReadFrom opcode (some (.loadValue opcode.first opcode.byte))
  | addValue (group : opcode.group = 0x7) :
      ReadFrom opcode (some (.addValue opcode.first opcode.byte))
  | arithmetic (operation : ArithmeticOperation) (group : opcode.group = 0x8)
      (selected : opcode.nibble = operation.nibble) :
      ReadFrom opcode (some (.arithmetic operation opcode.first opcode.second))
  | unknownArithmetic (group : opcode.group = 0x8)
      (unknown : ∀ operation : ArithmeticOperation, opcode.nibble ≠ operation.nibble) :
      ReadFrom opcode none
  | skipIfDifferent (group : opcode.group = 0x9) :
      ReadFrom opcode (some (.skipIfDifferent opcode.first opcode.second))
  | loadIndex (group : opcode.group = 0xA) : ReadFrom opcode (some (.loadIndex opcode.address))
  | jumpWithOffset (group : opcode.group = 0xB) :
      ReadFrom opcode (some (.jumpWithOffset opcode.address))
  | random (group : opcode.group = 0xC) :
      ReadFrom opcode (some (.random opcode.first opcode.byte))
  | draw (group : opcode.group = 0xD) :
      ReadFrom opcode (some (.draw opcode.first opcode.second opcode.nibble))
  | skipIfPressed (group : opcode.group = 0xE) (selected : opcode.byte = 0x9E) :
      ReadFrom opcode (some (.skipIfPressed opcode.first))
  | skipUnlessPressed (group : opcode.group = 0xE) (selected : opcode.byte = 0xA1) :
      ReadFrom opcode (some (.skipUnlessPressed opcode.first))
  | unknownKeypad (group : opcode.group = 0xE) (notPressed : opcode.byte ≠ 0x9E)
      (notReleased : opcode.byte ≠ 0xA1) : ReadFrom opcode none
  | readDelay (selected : opcode.IsTransfer 0x07) : ReadFrom opcode (some (.readDelay opcode.first))
  | awaitKey (selected : opcode.IsTransfer 0x0A) : ReadFrom opcode (some (.awaitKey opcode.first))
  | startDelay (selected : opcode.IsTransfer 0x15) :
      ReadFrom opcode (some (.startDelay opcode.first))
  | startSound (selected : opcode.IsTransfer 0x18) :
      ReadFrom opcode (some (.startSound opcode.first))
  | advanceIndex (selected : opcode.IsTransfer 0x1E) :
      ReadFrom opcode (some (.advanceIndex opcode.first))
  | pointAtGlyph (selected : opcode.IsTransfer 0x29) :
      ReadFrom opcode (some (.pointAtGlyph opcode.first))
  | storeDigits (selected : opcode.IsTransfer 0x33) :
      ReadFrom opcode (some (.storeDigits opcode.first))
  | storeRegisters (selected : opcode.IsTransfer 0x55) :
      ReadFrom opcode (some (.storeRegisters opcode.first))
  | loadRegisters (selected : opcode.IsTransfer 0x65) :
      ReadFrom opcode (some (.loadRegisters opcode.first))
  | unknownTransfer (group : opcode.group = 0xF) (unknown : opcode.byte ∉ transferSelectors) :
      ReadFrom opcode none

/-- Words of group zero are read as they are decoded. Decoding looks at the address; since the
group is zero, an address decides the whole word. -/
theorem readFrom_ofScreenGroup (opcode : Opcode) (group : opcode.group = 0x0) :
    ReadFrom opcode (some (ofScreenGroup opcode)) := by
  unfold ofScreenGroup
  split
  · next address => exact .clearScreen (opcode.eq_of_group_zero 0x00E0 group address)
  · next address => exact .returnFromCall (opcode.eq_of_group_zero 0x00EE group address)
  · next notClear notReturn =>
    apply ReadFrom.hostRoutine group
    · rintro rfl
      exact notClear (by decide)
    · rintro rfl
      exact notReturn (by decide)

/-- Words of group eight are read as they are decoded: the nibble selects an operation, or it
belongs to none and the word is passed over. -/
theorem readFrom_ofNibble? (opcode : Opcode) (group : opcode.group = 0x8) :
    ReadFrom opcode ((ArithmeticOperation.ofNibble? opcode.nibble).map
      (.arithmetic · opcode.first opcode.second)) := by
  cases found : ArithmeticOperation.ofNibble? opcode.nibble with
  | some operation =>
    have selected := (ArithmeticOperation.ofNibble?_eq_some_iff _ operation).mp found
    exact .arithmetic operation group selected.symm
  | none =>
    refine .unknownArithmetic group fun operation selected => ?_
    rw [(ArithmeticOperation.ofNibble?_eq_some_iff _ operation).mpr selected.symm] at found
    contradiction

/-- Words of group fourteen are read as they are decoded. Decoding compares numbers and reading
compares bytes, which is the same because a byte is determined by its number. -/
theorem readFrom_ofKeypadGroup? (opcode : Opcode) (group : opcode.group = 0xE) :
    ReadFrom opcode (ofKeypadGroup? opcode) := by
  unfold ofKeypadGroup?
  split
  · next selected => exact .skipIfPressed group (UInt8.toNat_inj.mp selected)
  · next selected => exact .skipUnlessPressed group (UInt8.toNat_inj.mp selected)
  · next notPressed notReleased =>
    apply ReadFrom.unknownKeypad group
    · intro selected
      exact notPressed (congrArg UInt8.toNat selected)
    · intro selected
      exact notReleased (congrArg UInt8.toNat selected)

/-- Words of group fifteen are read as they are decoded. The last case needs that a selector which
is none of the nine is not in their list. -/
theorem readFrom_ofTransferGroup? (opcode : Opcode) (group : opcode.group = 0xF) :
    ReadFrom opcode (ofTransferGroup? opcode) := by
  have transfer : ∀ selector : UInt8, opcode.byte.toNat = selector.toNat →
      opcode.IsTransfer selector := fun _ selected => ⟨group, UInt8.toNat_inj.mp selected⟩
  unfold ofTransferGroup?
  split
  · next selected => exact .readDelay (transfer 0x07 selected)
  · next selected => exact .awaitKey (transfer 0x0A selected)
  · next selected => exact .startDelay (transfer 0x15 selected)
  · next selected => exact .startSound (transfer 0x18 selected)
  · next selected => exact .advanceIndex (transfer 0x1E selected)
  · next selected => exact .pointAtGlyph (transfer 0x29 selected)
  · next selected => exact .storeDigits (transfer 0x33 selected)
  · next selected => exact .storeRegisters (transfer 0x55 selected)
  · next selected => exact .loadRegisters (transfer 0x65 selected)
  · apply ReadFrom.unknownTransfer group
    intro known
    simp only [transferSelectors, List.mem_cons, List.not_mem_nil, or_false] at known
    rcases known with same | same | same | same | same | same | same | same | same <;>
      simp [same] at *

/-- Every word is read as it is decoded in the relaxed set. The split follows the groups, of which
there are no more than sixteen; groups zero, eight, fourteen and fifteen have lemmas of their own.
-/
theorem readFrom_ofOpcodeRelaxed? (opcode : Opcode) :
    ReadFrom opcode (ofOpcodeRelaxed? opcode) := by
  unfold ofOpcodeRelaxed?
  split
  · next group => exact .skipIfSame group
  · next group => exact .skipIfDifferent group
  · next notSame notDifferent =>
    unfold ofOpcode?
    split
    · next group => exact readFrom_ofScreenGroup opcode group
    · next group => exact .jump group
    · next group => exact .call group
    · next group => exact .skipIfValue group
    · next group => exact .skipUnlessValue group
    · next group => exact absurd group notSame
    · next group => exact .loadValue group
    · next group => exact .addValue group
    · next group => exact readFrom_ofNibble? opcode group
    · next group => exact absurd group notDifferent
    · next group => exact .loadIndex group
    · next group => exact .jumpWithOffset group
    · next group => exact .random group
    · next group => exact .draw group
    · next group => exact readFrom_ofKeypadGroup? opcode group
    · next group => exact readFrom_ofTransferGroup? opcode group
    · have bounded := opcode.group_lt
      simp only [imp_false] at *
      omega

/-- A word is decoded in the relaxed set as it is read. Here the condition of a case is all that
is known of the word, and it has to be enough to evaluate decoding; that it is makes the reading
unique. -/
theorem ofOpcodeRelaxed?_of_readFrom (opcode : Opcode) (found : Option Instruction)
    (read : ReadFrom opcode found) : ofOpcodeRelaxed? opcode = found := by
  cases read
  case hostRoutine group notClear notReturn =>
    simp only [ofOpcodeRelaxed?, ofOpcode?, group, ofScreenGroup]
    split
    · next address => exact absurd (opcode.eq_of_group_zero 0x00E0 group address) notClear
    · next address => exact absurd (opcode.eq_of_group_zero 0x00EE group address) notReturn
    · rfl
  case clearScreen word =>
    rw [word]
    decide
  case returnFromCall word =>
    rw [word]
    decide
  case skipIfSame group => simp only [ofOpcodeRelaxed?, group]
  case skipIfDifferent group => simp only [ofOpcodeRelaxed?, group]
  case arithmetic operation group selected =>
    have found := (ArithmeticOperation.ofNibble?_eq_some_iff _ operation).mpr selected.symm
    simp only [ofOpcodeRelaxed?, ofOpcode?, group, found, Option.map_some]
  case unknownArithmetic group unknown =>
    have absent : ArithmeticOperation.ofNibble? opcode.nibble = none := by
      rw [Option.eq_none_iff_forall_ne_some]
      intro operation found
      exact unknown operation ((ArithmeticOperation.ofNibble?_eq_some_iff _ _).mp found).symm
    simp only [ofOpcodeRelaxed?, ofOpcode?, group, absent, Option.map_none]
  case skipIfPressed group selected | skipUnlessPressed group selected =>
    simp [ofOpcodeRelaxed?, ofOpcode?, group, ofKeypadGroup?, selected]
  case unknownKeypad group notPressed notReleased =>
    rw [Ne, ← UInt8.toNat_inj] at notPressed notReleased
    simp_all [ofOpcodeRelaxed?, ofOpcode?, ofKeypadGroup?]
  case unknownTransfer group unknown =>
    simp only [transferSelectors, List.mem_cons, ← UInt8.toNat_inj] at unknown
    simp_all [ofOpcodeRelaxed?, ofOpcode?, ofTransferGroup?]
  case readDelay selected | awaitKey selected | startDelay selected | startSound selected |
      advanceIndex selected | pointAtGlyph selected | storeDigits selected |
      storeRegisters selected | loadRegisters selected =>
    simp [ofOpcodeRelaxed?, ofOpcode?, selected.1, ofTransferGroup?, selected.2]
  all_goals
    next group => simp only [ofOpcodeRelaxed?, ofOpcode?, group]

/-- A word is read in one way only, because decoding is a function and gives what was read. No two
of the cases have to be compared. -/
theorem ReadFrom.unique {opcode : Opcode} {found other : Option Instruction}
    (read : ReadFrom opcode found) (alsoRead : ReadFrom opcode other) : found = other :=
  (ofOpcodeRelaxed?_of_readFrom opcode found read).symm.trans
    (ofOpcodeRelaxed?_of_readFrom opcode other alsoRead)

/-- Whatever a policy makes of a word, without refusing it, is what the word is read as. A strict
machine never passes over a word, so for it the second half of the split is empty. -/
theorem readFrom_of_decodeUnder (policy : UnknownWords) (opcode : Opcode)
    (found : Option Instruction) (decoded : decodeUnder policy opcode = .ok found) :
    ReadFrom opcode found := by
  have read := readFrom_ofOpcodeRelaxed? opcode
  cases found with
  | some instruction =>
    rwa [ofOpcodeRelaxed?_of_decodeUnder policy opcode instruction decoded] at read
  | none =>
    cases policy with
    | skip => rwa [show ofOpcodeRelaxed? opcode = none from Except.ok.inj decoded] at read
    | halt =>
      rw [decodeUnder_halt] at decoded
      split at decoded
      · cases Except.ok.inj decoded
      · contradiction

end Instruction

end Chip8
