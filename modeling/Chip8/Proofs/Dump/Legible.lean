import Chip8.Proofs.Dump.Rows
import Chip8.Proofs.Text.Wording

/-!
# What a dump tells

A dump is read back from the outside inwards. No line holds a line end, so the text determines
the lines. Every part but the rows of memory has as many lines in each dump, so the lines
determine the parts, and each part determines what it shows: a number ends at a space, a flag
at the padding of its column, and a row of memory shows its own bytes.

The configuration is not shown. Of it a dump tells only what the latest word means under it.
-/

namespace Chip8

/-- Machines agree in all that a dump shows besides the meaning of the latest word. Configuration
and entropy are missing on purpose, since no line shows them. -/
structure Machine.SameState (left right : Machine) : Prop where
  counter : left.counter = right.counter
  opcode : left.opcode = right.opcode
  index : left.index = right.index
  status : left.status = right.status
  registers : left.registers = right.registers
  stack : left.stack = right.stack
  delay : left.delay = right.delay
  sound : left.sound = right.sound
  keypad : left.keypad = right.keypad
  memory : left.memory = right.memory
  screen : left.screen = right.screen

namespace Dump

/-- A number of a dump is on one line. -/
@[simp] theorem newline_not_mem_number (value : Nat) : '\n' ∉ (number value).toList :=
  newline_not_mem_hex 4 value

/-- Numbers of a dump are on one line, however many there are: their characters are those of
numbers and spaces. -/
@[simp] theorem newline_not_mem_numbers (values : List Nat) : '\n' ∉ (numbers values).toList :=
  fun member => absurd (mem_of_mem_numbers values _ member) (by decide)

/-- Flags are on one line. The induction follows how they are written, the last flag without
padding. -/
@[simp] theorem newline_not_mem_flags (values : List Bool) : '\n' ∉ (flags values).toList := by
  fun_induction flags values with
  | case1 => simp
  | case2 last => cases last <;> simp [flagWord]
  | case3 flag rest _ inductionHypothesis =>
    cases flag <;> simpa [paddedFlag] using inductionHypothesis

/-- A line of a table is one line if its entries are, since tab, span and colon are on it. -/
@[simp] theorem newline_not_mem_rowLine (first last : Nat) (entries : String) :
    '\n' ∉ (rowLine first last entries).toList ↔ '\n' ∉ entries.toList := by
  simp [rowLine, span]

/-- The lines of a table are lines if the text of entries is, whichever entries stand in one of
them. -/
theorem newline_not_mem_tableLines {α : Type} (entries : List α) (text : List α → String)
    (each : ∀ values, '\n' ∉ (text values).toList) :
    ∀ line ∈ tableLines entries text, '\n' ∉ line.toList := by
  simp [tableLines, each]

/-- The meaning of a word is on one line, whether it is an instruction or none. -/
@[simp] theorem newline_not_mem_meaning (machine : Machine) :
    '\n' ∉ (meaning machine).toList := by
  unfold meaning
  split <;> simp

/-- The line of a row of memory is one line, with the filler as with words. -/
theorem newline_not_mem_memoryLine (row : MemoryRow) : '\n' ∉ (memoryLine row).toList := by
  rw [memoryLine, newline_not_mem_rowLine]
  split
  · simp [zeroFiller]
  · simp

/-- The line of a row of the screen is one line, because a pixel is a number sign or a full stop.
-/
theorem newline_not_mem_rowText (row : List Bool) : '\n' ∉ (Screen.rowText row).toList := by
  rw [Screen.rowText, String.toList_ofList, List.mem_map]
  rintro ⟨lit, -, drawn⟩
  cases lit <;> simp at drawn

/-- No line of a dump holds a line end. Everything that is quoted in one of them, such as an
instruction or a fault, has been shown to stay on its line. -/
theorem newline_not_mem_lines (machine : Machine) :
    ∀ line ∈ lines machine, '\n' ∉ line.toList := by
  have registers := newline_not_mem_tableLines
    ((machine.registers.upTo Registers.flag).map UInt8.toNat) numbers newline_not_mem_numbers
  have keys := newline_not_mem_tableLines machine.keypad.toList flags newline_not_mem_flags
  simp only [lines, List.forall_mem_append, List.forall_mem_map]
  refine ⟨⟨⟨⟨⟨⟨⟨?_, registers⟩, ?_⟩, keys⟩, ?_⟩, ?_⟩, ?_⟩, ?_⟩
  · simp
  · simp
  · simp
  · exact fun row _ => newline_not_mem_memoryLine row
  · simp
  · intro line member
    obtain ⟨row, -, rfl⟩ := List.mem_map.mp member
    simpa using newline_not_mem_rowText row

/-- A dump determines its lines: cutting the text at its line ends gives them back, since none of
them holds one and there is at least one line. -/
theorem lines_of_dump (left right : Machine) (same : left.dump = right.dump) :
    lines left = lines right := by
  have split (machine : Machine) :
      machine.dump.toList.splitOn '\n' = (lines machine).map String.toList := by
    rw [Machine.dump, String.toList_intercalate]
    apply List.splitOn_intercalate '\n'
    · simpa using newline_not_mem_lines machine
    · simp [lines]
  rw [← List.map_inj_right fun _ _ => String.toList_inj.mp, ← split left, same, split right]

/-- A line of a table determines its span and the text of its entries. The two numbers of the span
end at spaces, so indices of any size are found again. -/
theorem rowLine_injective {first last otherFirst otherLast : Nat} {entries others : String}
    (same : rowLine first last entries = rowLine otherFirst otherLast others) :
    first = otherFirst ∧ last = otherLast ∧ entries = others := by
  simp only [rowLine, span, String.append_assoc] at same
  rw [String.append_right_inj] at same
  obtain ⟨firsts, behind⟩ := number_unique (by simp [GoesOnWith]) (by simp [GoesOnWith]) same
  rw [String.append_right_inj] at behind
  obtain ⟨lasts, texts⟩ := number_unique (by simp [GoesOnWith]) (by simp [GoesOnWith]) behind
  exact ⟨firsts, lasts, (String.append_right_inj _).mp texts⟩

/-- A table has two lines, whatever its entries are. -/
@[simp] theorem length_tableLines {α : Type} (entries : List α) (text : List α → String) :
    (tableLines entries text).length = 2 := rfl

/-- A table determines its entries if their text does. The entries of both lines are put back
together, and they are all entries because one line begins where the other ends. -/
theorem tableLines_injective {α : Type} (text : List α → String)
    (injective : ∀ left right, text left = text right → left = right) (left right : List α)
    (same : tableLines left text = tableLines right text) : left = right := by
  simp only [tableLines, List.cons.injEq, and_true] at same
  obtain ⟨upper, lower⟩ := same
  have head := injective _ _ (rowLine_injective upper).2.2
  have tail := injective _ _ (rowLine_injective lower).2.2
  rw [← List.take_append_drop entryCount left, head, tail, List.take_append_drop]

/-- Flags in words determine the flags, and how many there are. The last flag is not padded, so a
list that ends has to be told from one that goes on: behind a padded flag there is always another
space. -/
theorem flags_injective (left right : List Bool) (same : flags left = flags right) :
    left = right := by
  fun_induction flags left generalizing right with
  | case1 =>
    match right with
    | [] => rfl
    | [last] => simp [flags, ← String.toList_inj] at same
    | flag :: next :: rest => simp [flags, ← String.toList_inj] at same
  | case2 last =>
    match right with
    | [] => simp [flags, ← String.toList_inj] at same
    | [other] => cases last <;> cases other <;> simp [flags, flagWord] at same ⊢
    | other :: next :: rest =>
      cases last <;> cases other <;>
        simp [flags, flagWord, paddedFlag, ← String.toList_inj] at same
  | case3 flag rest more inductionHypothesis =>
    match right with
    | [] => simp [flags, ← String.toList_inj] at same
    | [other] =>
      cases flag <;> cases other <;>
        simp [flags, flagWord, paddedFlag, ← String.toList_inj] at same
    | other :: next :: others =>
      have texts : paddedFlag flag ++ flags rest = paddedFlag other ++ flags (next :: others) := by
        simpa only [flags, String.append_assoc, String.append_right_inj] using same
      have first := congrArg (fun text => text.toList.head?) texts
      have agree : flag = other := by
        cases flag <;> cases other <;> simp [paddedFlag] at first ⊢
      rw [agree, String.append_right_inj] at texts
      rw [agree, inductionHypothesis _ texts]

/-- Lines of a row of memory each show the same span, and the same words unless both are rows of
zeros. Rows of zeros may have different words in number, which is why nothing is said of these. -/
theorem memoryLine_injective {row other : MemoryRow} (same : memoryLine row = memoryLine other) :
    row.first = other.first ∧ row.last = other.last ∧ row.isZero = other.isZero ∧
      (row.isZero = false → row.words = other.words) := by
  obtain ⟨firsts, lasts, texts⟩ := rowLine_injective same
  have zeros : row.isZero = other.isZero := by
    rw [Bool.eq_iff_iff, ← memoryLine_eq_filler_iff, ← memoryLine_eq_filler_iff, same, firsts,
      lasts]
  refine ⟨firsts, lasts, zeros, fun nonzero => ?_⟩
  rw [← zeros, nonzero] at texts
  exact numbers_injective _ _ texts

/-- A word determines its bytes, as a quotient and a remainder. -/
theorem bytes_of_wordAt (left right : Array UInt8) (index : Nat)
    (same : MemoryRow.wordAt left index = MemoryRow.wordAt right index) :
    left[index]?.getD 0 = right[index]?.getD 0 ∧
      left[index + 1]?.getD 0 = right[index + 1]?.getD 0 := by
  rw [← UInt8.toNat_inj, ← UInt8.toNat_inj]
  have low := UInt8.toNat_lt (left[index + 1]?.getD 0)
  have otherLow := UInt8.toNat_lt (right[index + 1]?.getD 0)
  simp only [MemoryRow.wordAt] at same
  omega

/-- The words of a cut row determine its bytes, since every index of the row is in one of its
words. Bytes behind the data count as zero here. -/
theorem bytes_of_words (left right : Array UInt8) (first : Nat)
    (same : (MemoryRow.ofData left first).words = (MemoryRow.ofData right first).words)
    (index : Nat) (lower : first ≤ index) (upper : index < first + MemoryRow.byteCount) :
    left[index]?.getD 0 = right[index]?.getD 0 := by
  simp only [MemoryRow.ofData, List.map_inj_left, List.mem_range] at same
  obtain ⟨word, narrow, rfl | rfl⟩ := MemoryRow.exists_word lower upper
  · exact (bytes_of_wordAt left right _ (same word narrow)).1
  · exact (bytes_of_wordAt left right _ (same word narrow)).2

/-- The lines of its rows determine data of a known size. An index lies in some row, and a row
with the same line stands among the others; both have the same span, so they show the same bytes
there. Without the size, zeros at the end would be lost in a last row that is padded. -/
theorem memoryLines_injective (left right : Array UInt8) (size : left.size = right.size)
    (same : (memoryRows left).map memoryLine = (memoryRows right).map memoryLine) :
    left = right := by
  refine Array.ext size fun index inside otherInside => ?_
  obtain ⟨row, member, lower, upper⟩ :=
    (tiles_memoryRows left).exists_row index (Nat.zero_le _) inside
  have line : memoryLine row ∈ (memoryRows right).map memoryLine :=
    same ▸ List.mem_map_of_mem member
  obtain ⟨other, otherMember, lines⟩ := List.mem_map.mp line
  obtain ⟨firsts, lasts, zeros, words⟩ := memoryLine_injective lines.symm
  have shows := shows_memoryRows left row member
  have otherShows := shows_memoryRows right other otherMember
  have bytes : left[index]?.getD 0 = right[index]?.getD 0 := by
    cases zero : row.isZero with
    | true =>
      rw [shows.isZero_iff.mp zero index lower upper,
        otherShows.isZero_iff.mp (zeros ▸ zero) index (firsts ▸ lower) (lasts ▸ upper)]
    | false =>
      have cut := (shows.whole zero).2
      have otherCut := (otherShows.whole (zeros ▸ zero)).2
      have same := words zero
      rw [cut, otherCut, ← firsts] at same
      refine bytes_of_words left right row.first same index lower ?_
      rw [cut] at upper
      simp only [MemoryRow.ofData, MemoryRow.byteCount, MemoryRow.wordCount] at upper ⊢
      omega
  simpa [inside, otherInside] using bytes

/-- A row of pixels in text determines the pixels, because lit and unlit ones have different
characters. -/
theorem rowText_injective (left right : List Bool)
    (same : Screen.rowText left = Screen.rowText right) : left = right := by
  rw [Screen.rowText, Screen.rowText, String.ofList_inj] at same
  refine (List.map_inj_right fun lit other => ?_).mp same
  cases lit <;> cases other <;> simp

/-- The rows of a screen in text determine the screen: every pixel stands at its place in its row.
-/
theorem screenLines_injective (left right : Screen) (same : left.lines = right.lines) :
    left = right := by
  have rows : left.rows = right.rows := (List.map_inj_right rowText_injective).mp same
  apply Screen.ext_isLit
  intro x y column row
  have found := Screen.getElem_rows left x y column row
  rw [rows, Screen.getElem_rows right x y column row] at found
  exact (Option.some.inj found).symm

/-- The values of the registers determine them, since there are no others than those that are
listed. -/
theorem registers_of_values (left right : Registers)
    (same : (left.upTo Registers.flag).map UInt8.toNat =
      (right.upTo Registers.flag).map UInt8.toNat) : left = right := by
  have values : left.upTo Registers.flag = right.upTo Registers.flag :=
    (List.map_inj_right fun _ _ => UInt8.toNat_inj.mp).mp same
  apply Registers.ext_read
  intro number inside
  exact List.map_inj_left.mp values number (List.mem_range.mpr inside)

/-- The return addresses determine the stack. They are shown from the bottom, the other way round
than they are kept. -/
theorem stack_of_frames (left right : CallStack)
    (same : left.toList.map UInt16.toNat = right.toList.map UInt16.toNat) : left = right := by
  have frames : left.toList = right.toList :=
    (List.map_inj_right fun _ _ => UInt16.toNat_inj.mp).mp same
  exact CallStack.ext_frames left right (List.reverse_inj.mp frames)

/-- The ticks that remain determine a timer. -/
theorem countdown_of_value (left right : Countdown)
    (same : left.value.toNat = right.value.toNat) : left = right := by
  cases left
  cases right
  exact congrArg Countdown.mk (UInt8.toNat_inj.mp same)

/-- The states of the keys determine the keypad. -/
theorem keypad_of_keys (left right : Keypad) (same : left.toList = right.toList) :
    left = right := by
  cases left
  cases right
  exact congrArg Keypad.mk (Vector.toList_inj.mp same)

/-- The bytes determine the memory. -/
theorem memory_of_bytes (left right : Memory) (same : left.bytes = right.bytes) :
    left = right := by
  cases left
  cases right
  exact congrArg Memory.mk (Vector.toArray_inj.mp same)

/-- The line of the latest word determines the word and its meaning. The meaning stands between
brackets that are the same in each dump, so it may be any text. -/
theorem opcodeLine_injective {opcode other : Nat} {meaning otherMeaning : String}
    (same : "Opcode: " ++ number opcode ++ " (" ++ meaning ++ ")" =
      "Opcode: " ++ number other ++ " (" ++ otherMeaning ++ ")") :
    opcode = other ∧ meaning = otherMeaning := by
  simp only [String.append_assoc, String.append_right_inj] at same
  obtain ⟨words, behind⟩ := number_unique (by simp [GoesOnWith]) (by simp [GoesOnWith]) same
  rw [String.append_right_inj, String.append_left_inj] at behind
  exact ⟨words, behind⟩

/-- The lines of a dump determine the state that they show, and the meaning of the latest word.
Only the rows of memory differ in number from one dump to another, so every other part is found at
its place from the top or from the bottom. The parts are cut off one after the other in that
order; what is left in the middle are the rows of memory. -/
theorem state_of_lines (left right : Machine) (same : lines left = lines right) :
    left.SameState right ∧ meaning left = meaning right := by
  obtain ⟨upper, screen⟩ := List.append_inj' same (by simp [Screen.lines])
  obtain ⟨upper, -⟩ := List.append_inj' upper rfl
  obtain ⟨upper, memory⟩ := List.append_inj upper (by simp)
  obtain ⟨upper, -⟩ := List.append_inj' upper rfl
  obtain ⟨upper, keypad⟩ := List.append_inj' upper (by simp)
  obtain ⟨upper, middle⟩ := List.append_inj' upper rfl
  obtain ⟨top, registers⟩ := List.append_inj' upper (by simp)
  simp only [List.cons.injEq, String.append_right_inj, and_true] at top middle
  obtain ⟨counter, word, index, status⟩ := top
  obtain ⟨stack, delay, sound⟩ := middle
  obtain ⟨opcode, meanings⟩ := opcodeLine_injective word
  refine ⟨?_, meanings⟩
  exact {
    counter := UInt16.toNat_inj.mp (number_injective counter)
    opcode := UInt16.toNat_inj.mp opcode
    index := UInt16.toNat_inj.mp (number_injective index)
    status := statusText_injective _ _ status
    registers := registers_of_values _ _ (tableLines_injective _ numbers_injective _ _ registers)
    stack := stack_of_frames _ _ (numbers_injective _ _ stack)
    delay := countdown_of_value _ _ (number_injective delay)
    sound := countdown_of_value _ _ (number_injective sound)
    keypad := keypad_of_keys _ _ (tableLines_injective _ flags_injective _ _ keypad)
    memory := memory_of_bytes _ _ (memoryLines_injective _ _ (by simp) memory)
    screen := screenLines_injective _ _
      ((List.map_inj_right fun _ _ => (String.append_right_inj _).mp).mp screen) }

end Dump

/-- Two dumps are equal exactly if the machines agree in every register, timer, key, byte and
pixel, in their stacks, and in what their next step will do, a fault included, and if their latest
word means the same to both. The last part is not implied by the others, since the meaning depends
on the configuration.

From left to right, the text is cut at its line ends, the lines into parts at known places, and
each part determines what it shows. From right to left, a dump is made of nothing but these
components. -/
theorem Machine.dump_eq_iff (left right : Machine) :
    left.dump = right.dump ↔
      left.SameState right ∧ Dump.meaning left = Dump.meaning right := by
  constructor
  · intro same
    exact Dump.state_of_lines left right (Dump.lines_of_dump left right same)
  · rintro ⟨state, meanings⟩
    rw [dump, dump, Dump.lines, Dump.lines, state.counter, state.opcode, meanings, state.index,
      state.status, state.registers, state.stack, state.delay, state.sound, state.keypad,
      state.memory, state.screen]

end Chip8
