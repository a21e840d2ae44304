import Chip8.Proofs.Machine.Writes
import Chip8.Proofs.Screen.Flips

/-!
# Drawing

What a drawing step makes of the screen, in one formula for each pixel: its distances
behind the corner of the sprite, taken around the edges, are a row and a column of the
sprite, and the bit there says whether the pixel is inverted. The rows are the bytes from
the index register on, taken around the end of memory.

The flag and the number of lit pixels follow from the same formula, and everything else
that the step changes is the latest word, the counter and what the cadence counts down.
-/

namespace Chip8

namespace Machine

/-- The sprite at the index register, of a height and with its corner at the position in two
registers, has a set bit for the pixel at a position. It is told by the bytes of memory and by
distances, without listing positions or following the order of drawing. -/
def inks (machine : Machine) (x y height column row : Nat) : Bool :=
  let across := Screen.offset Screen.width (machine.registers.read x).toNat column
  let down := Screen.offset Screen.height (machine.registers.read y).toNat row
  decide (down < height) && decide (across < Sprite.width) &&
    Sprite.covers (machine.memory.read ((machine.index.toNat + down) % Memory.capacity)) across

/-- The rows of a sprite are the bytes from the index register on. What the sprite paints is
therefore what the machine inks. -/
theorem paints_readBlock (machine : Machine) (x y height column row : Nat) :
    Sprite.paints (machine.memory.readBlock machine.index.toNat height)
        (machine.registers.read x).toNat (machine.registers.read y).toNat column row =
      machine.inks x y height column row := by
  simp only [Sprite.paints, inks, Memory.read_mod]
  generalize Screen.offset Screen.height _ row = down
  by_cases within : down < height
  · have stored : down < (machine.memory.readBlock machine.index.toNat height).length := by
      rwa [Memory.length_readBlock]
    rw [List.getElem?_eq_getElem stored, Memory.getElem_readBlock]
    simp [within]
  · simp [within, Memory.readBlock]

section

variable (machine : Machine) (x y height : Nat) (low : height ≤ Screen.height)

include low

/-- Drawing inverts the pixels that the sprite has a set bit for. No pixel is met twice, so each
is inverted once or not at all; this is why the height is bounded. -/
theorem isLit_draw (column row : Nat) :
    (machine.draw x y height).screen.isLit column row =
      (machine.screen.isLit column row ^^ machine.inks x y height column row) := by
  rw [← paints_readBlock]
  exact Sprite.isLit_flipAll_cells _ _ _ (by rwa [Memory.length_readBlock]) _ column row

/-- Drawing sets the flag if one of these pixels was lit before, and clears it otherwise. While it
draws, a flip only sees its own pixel at its own time, and that is the original one. -/
theorem registers_draw :
    (machine.draw x y height).registers =
      machine.registers.write Registers.flag
        (if Screen.positions.any fun cell =>
          machine.inks x y height cell.1 cell.2 && machine.screen.isLit cell.1 cell.2
        then 1 else 0) := by
  have collided := Sprite.collided_flipAll_cells
    (machine.memory.readBlock machine.index.toNat height) (machine.registers.read x).toNat
    (machine.registers.read y).toNat (by rwa [Memory.length_readBlock]) machine.screen
  simp only [paints_readBlock] at collided
  simp only [draw, collided]
  cases Screen.positions.any _ <;> rfl

/-- Drawing moves the number of lit pixels by one for each of these pixels, downwards for those
that were lit. -/
theorem litCount_draw :
    (machine.draw x y height).screen.litCount +
        2 * Screen.positions.countP (fun cell =>
          machine.inks x y height cell.1 cell.2 && machine.screen.isLit cell.1 cell.2) =
      machine.screen.litCount +
        Screen.positions.countP fun cell => machine.inks x y height cell.1 cell.2 :=
  Screen.litCount_of_inverted _ _ _ fun column _ row _ =>
    isLit_draw machine x y height low column row

end

/-- Every policy reads the words of group thirteen as drawing; all of them are in the strict set.
-/
theorem decodeUnder_draw (policy : UnknownWords) (word : Opcode) (group : word.group = 0xD) :
    Instruction.decodeUnder policy word =
      .ok (some (.draw word.first word.second word.nibble)) := by
  cases policy <;>
    simp only [Instruction.decodeUnder, Instruction.decode, Instruction.ofOpcodeRelaxed?,
      Instruction.ofOpcode?, group, Except.map]

/-- A step that comes to a word of group thirteen draws its sprite. It cannot fail, and completing
it moves the counter and, under the instruction cadence, the timers. -/
theorem step_of_drawing (machine : Machine) (active : machine.Active) (inside : machine.InMemory)
    (drawing : machine.nextWord.group = 0xD) :
    let word := machine.nextWord
    let drawn := machine.draw word.first word.second word.nibble
    machine.step.result = .ok .draw ∧
      machine.step.machine =
        { machine with
          opcode := word
          counter := machine.counter + 2
          screen := drawn.screen
          registers := drawn.registers
          delay := machine.config.cadence.countDown machine.delay
          sound := machine.config.cadence.countDown machine.sound } := by
  intro word drawn
  have decoded := decodeUnder_draw machine.config.unknown machine.nextWord drawing
  rw [step_eq_of_transition machine _ (.executed _ _ active inside decoded rfl)]
  refine ⟨rfl, ?_⟩
  rw [Effect.machine_complete]
  simp only [Flow.toUInt16_target_next]
  rfl

/-- A step that comes to a word `DXYN` inverts each pixel that the sprite of height `N` has a set
bit for, and no other. The flag says whether one of them was lit; the number of lit pixels grows
by all of them and shrinks by twice those that were lit. No other register changes, and of the
other components only the latest word, the counter and, under the instruction cadence, the timers
do.

A height is a nibble, so the sprite is lower than the screen and meets no pixel twice. With this
the pixels, the flag and the count are laws of drawing; the rest is what completing an effect
leaves. The hypotheses only say that the step comes to such a word: the machine has not halted,
and the word can be fetched. -/
theorem step_inverts_sprite (machine : Machine) (active : machine.Active)
    (inside : machine.InMemory) (drawing : machine.nextWord.group = 0xD) :
    let word := machine.nextWord
    let inked := machine.inks word.first word.second word.nibble
    let after := machine.step.machine
    machine.step.result = .ok .draw ∧
      (∀ column < Screen.width, ∀ row < Screen.height,
        after.screen.isLit column row = (machine.screen.isLit column row ^^ inked column row)) ∧
      (after.registers.read Registers.flag =
        if ∃ column < Screen.width, ∃ row < Screen.height,
          inked column row = true ∧ machine.screen.isLit column row = true
        then 1 else 0) ∧
      after.screen.litCount +
          2 * Screen.positions.countP (fun cell =>
            inked cell.1 cell.2 && machine.screen.isLit cell.1 cell.2) =
        machine.screen.litCount + Screen.positions.countP (fun cell => inked cell.1 cell.2) ∧
      (∀ number < Registers.count, number ≠ Registers.flag →
        after.registers.read number = machine.registers.read number) ∧
      after =
        { machine with
          opcode := word
          counter := machine.counter + 2
          screen := after.screen
          registers := after.registers
          delay := machine.config.cadence.countDown machine.delay
          sound := machine.config.cadence.countDown machine.sound } := by
  intro word inked after
  obtain ⟨result, moved⟩ := step_of_drawing machine active inside drawing
  have low : word.nibble ≤ Screen.height :=
    Nat.le_of_lt (Nat.lt_of_lt_of_le word.nibble_lt (by decide))
  have screen : after.screen = (machine.draw word.first word.second word.nibble).screen :=
    (congrArg Machine.screen moved :)
  have registers : after.registers =
      (machine.draw word.first word.second word.nibble).registers :=
    (congrArg Machine.registers moved :)
  refine ⟨result, ?_, ?_, ?_, ?_, ?_⟩
  · intro column _ row _
    rw [screen]
    exact isLit_draw machine _ _ _ low column row
  · rw [registers, registers_draw machine _ _ _ low, Registers.read_write, if_pos rfl]
    congr 1
    simp only [List.any_eq_true, Screen.mem_positions, Bool.and_eq_true, Prod.exists, eq_iff_iff]
    constructor
    · rintro ⟨column, row, ⟨narrow, short⟩, inkedThere, lit⟩
      exact ⟨column, narrow, row, short, inkedThere, lit⟩
    · rintro ⟨column, narrow, row, short, inkedThere, lit⟩
      exact ⟨column, row, ⟨narrow, short⟩, inkedThere, lit⟩
  · rw [screen]
    exact litCount_draw machine _ _ _ low
  · intro number bound other
    rw [registers, registers_draw machine _ _ _ low]
    exact Registers.read_write_of_ne _ _ _ _ (by decide) bound other
  · rw [screen, registers]
    exact moved

/-- A machine under the instruction cadence that draws at the position that the flag gives
for column and row alike: three rows, the first of them at the last address, across the
right and the lower edge of a screen with one lit pixel. -/
def edgeDrawer : Machine :=
  { powerOn { cadence := .instruction } (Entropy.cycle #[]) with
    memory := ((Memory.zero.writeBlock 0x200 [0xDF, 0xF3]).write 0xFFF 0x81).write 0x001 0xC0
    registers := Registers.zero.write Registers.flag 62
    index := 0xFFF
    delay := ⟨2⟩
    screen := Screen.blank.flip 62 30 }

/-- The lit pixel goes out, three others are lit around the edges, and the position in the
flag is lost to the collision. -/
theorem edgeDrawer_draws :
    edgeDrawer.nextWord = 0xDFF3 ∧ edgeDrawer.step.result = .ok .draw ∧
      edgeDrawer.step.machine.screen.isLit 62 30 = false ∧
      edgeDrawer.step.machine.screen.isLit 5 30 = true ∧
      edgeDrawer.step.machine.screen.isLit 63 0 = true ∧
      edgeDrawer.step.machine.screen.isLit 62 31 = false ∧
      edgeDrawer.step.machine.registers.read Registers.flag = 1 ∧
      edgeDrawer.step.machine.screen.litCount = 3 ∧
      edgeDrawer.step.machine.registers.read 0 = 0 ∧
      edgeDrawer.step.machine.delay = ⟨1⟩ ∧ edgeDrawer.step.machine.index = 0xFFF := by
  have active : edgeDrawer.Active := nofun
  obtain ⟨inside, word⟩ : edgeDrawer.counter.toNat + 1 < 4096 ∧ edgeDrawer.nextWord = 0xDFF3 := by
    decide +kernel
  obtain ⟨drawing, x, y, height⟩ : (0xDFF3 : Opcode).group = 0xD ∧ (0xDFF3 : Opcode).first = 15 ∧
      (0xDFF3 : Opcode).second = 15 ∧ (0xDFF3 : Opcode).nibble = 3 := by
    decide
  rw [← word] at drawing
  obtain ⟨result, pixels, flag, lit, others, moved⟩ :=
    step_inverts_sprite edgeDrawer active inside drawing
  generalize edgeDrawer.step = stepped at *
  rw [word, x, y, height] at pixels flag lit
  obtain ⟨⟨inked, struck⟩, right, below, beside, met, all, start, spared⟩ :
      (edgeDrawer.inks 15 15 3 62 30 = true ∧ edgeDrawer.screen.isLit 62 30 = true) ∧
        (edgeDrawer.screen.isLit 5 30 ^^ edgeDrawer.inks 15 15 3 5 30) = true ∧
        (edgeDrawer.screen.isLit 63 0 ^^ edgeDrawer.inks 15 15 3 63 0) = true ∧
        (edgeDrawer.screen.isLit 62 31 ^^ edgeDrawer.inks 15 15 3 62 31) = false ∧
        Screen.positions.countP (fun cell =>
          edgeDrawer.inks 15 15 3 cell.1 cell.2 && edgeDrawer.screen.isLit cell.1 cell.2) = 1 ∧
        Screen.positions.countP (fun cell => edgeDrawer.inks 15 15 3 cell.1 cell.2) = 4 ∧
        edgeDrawer.screen.litCount = 1 ∧ edgeDrawer.registers.read 0 = 0 := by
    decide +kernel
  refine ⟨word, result, ?_, ?_, ?_, ?_, ?_, ?_, ?_, ?_, ?_⟩
  · rw [pixels 62 (by decide) 30 (by decide), inked, struck]
    rfl
  · rw [pixels 5 (by decide) 30 (by decide), right]
  · rw [pixels 63 (by decide) 0 (by decide), below]
  · rw [pixels 62 (by decide) 31 (by decide), beside]
  · rw [flag, if_pos ⟨62, by decide, 30, by decide, inked, struck⟩]
  · rw [met, all, start] at lit
    omega
  · rw [others 0 (by decide) (by decide), spared]
  · have ticked : (Countdown.mk 2).tick = ⟨1⟩ := by decide
    rw [moved, ← ticked]
    rfl
  · rw [moved]
    rfl

end Machine

end Chip8
