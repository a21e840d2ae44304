import Chip8.Proofs.Machine.Drawing

/-!
# Strokes

A stroke is a drawing word with registers and an index register that were set up for it. It
inverts the pixels that its sprite covers, and which these are is a matter of the memory and
of where the sprite is placed. Strokes leave memory alone, so each of them covers the same
pixels whatever strokes came before it: a pixel is inverted as often as strokes cover it,
and their order does not matter.

A stroke that is repeated takes itself back. What it hits are the covered pixels that were
dark at first, so between them both flags speak of every pixel that is covered.
-/

namespace Chip8

/-- Where a sprite is drawn, and where its rows stand in memory. Which registers held the position
is forgotten. -/
structure Placement where
  column : UInt8
  row : UInt8
  index : UInt16
  height : Nat
  deriving DecidableEq, Repr

namespace Placement

/-- A sprite that is placed on the screen covers a pixel: the pixel's distances behind the corner,
around the edges, are a row and a column of the sprite with a set bit. This does not depend on
what the screen shows. -/
def covers (placement : Placement) (memory : Memory) (column row : Nat) : Bool :=
  let across := Screen.offset Screen.width placement.column.toNat column
  let down := Screen.offset Screen.height placement.row.toNat row
  decide (down < placement.height) && decide (across < Sprite.width) &&
    Sprite.covers (memory.read ((placement.index.toNat + down) % Memory.capacity)) across

/-- A sprite covers some pixel exactly if one of its rows has a set bit. From a set bit, the pixel
is found as far behind the corner as the bit is in the sprite; that it is found there needs a
sprite that is no higher than the screen. -/
theorem exists_covers_iff (placement : Placement) (memory : Memory)
    (low : placement.height ≤ Screen.height) :
    (∃ column < Screen.width, ∃ row < Screen.height, placement.covers memory column row = true) ↔
      ∃ down < placement.height,
        memory.read ((placement.index.toNat + down) % Memory.capacity) ≠ 0 := by
  constructor
  · rintro ⟨column, _, row, _, covered⟩
    simp only [covers, Bool.and_eq_true, decide_eq_true_eq] at covered
    obtain ⟨⟨within, _⟩, set⟩ := covered
    refine ⟨_, within, fun empty => ?_⟩
    rw [empty] at set
    exact absurd set (by simp [Sprite.covers])
  · rintro ⟨down, within, filled⟩
    -- A row without a set bit is zero, so this one has a set bit in some column.
    obtain ⟨across, narrow, set⟩ : ∃ across < Sprite.width, Sprite.covers
        (memory.read ((placement.index.toNat + down) % Memory.capacity)) across = true := by
      by_contra none
      push Not at none
      apply filled
      apply Sprite.ext_covers
      intro column narrow
      rw [Bool.eq_false_iff.mpr (none column narrow)]
      simp [Sprite.covers]
    have column : Screen.offset Screen.width placement.column.toNat
        ((placement.column.toNat + across) % Screen.width) = across := by
      simp only [Screen.offset, Screen.width, Sprite.width] at narrow ⊢
      omega
    have row : Screen.offset Screen.height placement.row.toNat
        ((placement.row.toNat + down) % Screen.height) = down := by
      simp only [Screen.offset, Screen.height] at low ⊢
      omega
    refine ⟨(placement.column.toNat + across) % Screen.width, Nat.mod_lt _ (by decide),
      (placement.row.toNat + down) % Screen.height, Nat.mod_lt _ (by decide), ?_⟩
    simp only [covers, column, row, within, narrow, set, decide_true, Bool.and_self]

end Placement

/-- One more covering makes an odd number even and an even number odd. -/
theorem odd_countP_cons {α : Type} (value : α) (rest : List α) (condition : α → Bool) :
    decide ((value :: rest).countP condition % 2 = 1) =
      (condition value ^^ decide (rest.countP condition % 2 = 1)) := by
  rw [List.countP_cons]
  cases condition value with
  | false => simp
  | true =>
    rw [if_pos rfl, Bool.true_xor, ← decide_not]
    exact decide_eq_decide.mpr (by omega)

/-- A drawing word, with the registers and the index register that are set up for it. That the
word draws is part of the stroke. -/
structure Stroke where
  word : Opcode
  drawing : word.group = 0xD
  registers : Registers
  index : UInt16

/-- Where a stroke places its sprite. Different strokes may have the same placement, by other
registers. -/
def Stroke.placement (stroke : Stroke) : Placement where
  column := stroke.registers.read stroke.word.first
  row := stroke.registers.read stroke.word.second
  index := stroke.index
  height := stroke.word.nibble

/-- Sprites of strokes are lower than the screen is high, since a height is a nibble. -/
theorem Stroke.low (stroke : Stroke) : stroke.placement.height ≤ Screen.height :=
  Nat.le_of_lt (Nat.lt_of_lt_of_le stroke.word.nibble_lt (by decide))

namespace Machine

/-- The machine that a stroke is made with. Memory and screen are the machine's own. -/
def readied (machine : Machine) (stroke : Stroke) : Machine :=
  { machine with
    opcode := stroke.word
    registers := stroke.registers
    index := stroke.index }

/-- Makes a stroke: decodes and executes its word as a step would, with nothing to be fetched. -/
def strike (machine : Machine) (stroke : Stroke) : Outcome := (machine.readied stroke).dispatch

/-- Makes strokes, one after the other, as long as none of them fails. -/
def strikeAll (machine : Machine) : List Stroke → Except Fault Machine
  | [] => .ok machine
  | stroke :: rest =>
    match (machine.strike stroke).result with
    | .error fault => .error fault
    | .ok _ => (machine.strike stroke).machine.strikeAll rest

section

variable (machine : Machine) (stroke : Stroke)

/-- A stroke draws its sprite and completes. It leaves memory alone, so later strokes find their
rows as they were. -/
theorem strike_eq :
    (machine.strike stroke).result = .ok .draw ∧
      (machine.strike stroke).machine.memory = machine.memory ∧
      (machine.strike stroke).machine.screen =
        ((machine.readied stroke).draw stroke.word.first stroke.word.second
          stroke.word.nibble).screen ∧
      (machine.strike stroke).machine.registers =
        ((machine.readied stroke).draw stroke.word.first stroke.word.second
          stroke.word.nibble).registers := by
  have meaning : (machine.readied stroke).decoded =
      .ok (some (.draw stroke.word.first stroke.word.second stroke.word.nibble)) :=
    decodeUnder_draw machine.config.unknown stroke.word stroke.drawing
  rw [strike, dispatch, meaning]
  dsimp only [execute]
  rw [Effect.machine_complete]
  exact ⟨rfl, rfl, rfl, rfl⟩

/-- The sprite of a stroke has its set bits where its placement covers. Both are the same formula,
once over registers and once over the placement that they give. -/
theorem inks_readied (column row : Nat) :
    (machine.readied stroke).inks stroke.word.first stroke.word.second stroke.word.nibble column
        row =
      stroke.placement.covers machine.memory column row := rfl

/-- A stroke inverts the pixels that it covers. -/
theorem isLit_strike (column row : Nat) :
    (machine.strike stroke).machine.screen.isLit column row =
      (machine.screen.isLit column row ^^ stroke.placement.covers machine.memory column row) := by
  rw [(strike_eq machine stroke).2.2.1, ← inks_readied]
  exact isLit_draw (machine.readied stroke) _ _ _ stroke.low column row

/-- The flag of a stroke says whether a pixel that it covers was lit. The search goes over the
screen instead of the sprite. -/
theorem flag_strike :
    (machine.strike stroke).machine.registers.read Registers.flag =
      if ∃ column < Screen.width, ∃ row < Screen.height,
        stroke.placement.covers machine.memory column row = true ∧
          machine.screen.isLit column row = true
      then 1 else 0 := by
  have drawn := registers_draw (machine.readied stroke) stroke.word.first stroke.word.second
    stroke.word.nibble stroke.low
  rw [(strike_eq machine stroke).2.2.2, drawn, Registers.read_write_self]
  congr 1
  rw [eq_iff_iff, Screen.any_positions_iff]
  simp only [inks_readied, Bool.and_eq_true]
  rfl

/-- Strokes are all made. They leave memory alone, and invert the pixels that an odd number of
them covers. The induction is on the strokes; since memory stays, what a stroke covers can be told
at the beginning. -/
theorem strikeAll_eq (strokes : List Stroke) :
    ∃ drawn, machine.strikeAll strokes = .ok drawn ∧ drawn.memory = machine.memory ∧
      ∀ column row, drawn.screen.isLit column row =
        (machine.screen.isLit column row ^^
          decide ((strokes.countP fun stroke =>
            stroke.placement.covers machine.memory column row) % 2 = 1)) := by
  induction strokes generalizing machine with
  | nil => exact ⟨machine, rfl, rfl, by simp⟩
  | cons stroke rest inductionHypothesis =>
    obtain ⟨result, memory, _⟩ := strike_eq machine stroke
    obtain ⟨drawn, done, kept, inverted⟩ := inductionHypothesis (machine.strike stroke).machine
    refine ⟨drawn, ?_, kept.trans memory, fun column row => ?_⟩
    · rw [strikeAll, result]
      exact done
    · rw [inverted, isLit_strike, memory, odd_countP_cons, Bool.xor_assoc]

variable (again : Stroke) (same : again.placement = stroke.placement)

include same

/-- A stroke that is repeated restores the screen: every pixel is inverted twice or not at all. It
need not use the same registers, as long as the placement is the same. -/
theorem screen_strike_again :
    ((machine.strike stroke).machine.strike again).machine.screen = machine.screen := by
  apply Screen.ext_isLit
  intro column row _ _
  rw [isLit_strike, isLit_strike, (strike_eq machine stroke).2.1, same, Bool.xor_assoc,
    Bool.xor_self, Bool.xor_false]

/-- The flag of a stroke that is repeated says whether a pixel that it covers was dark, because
such a pixel is lit in between. -/
theorem flag_strike_again :
    ((machine.strike stroke).machine.strike again).machine.registers.read Registers.flag =
      if ∃ column < Screen.width, ∃ row < Screen.height,
        stroke.placement.covers machine.memory column row = true ∧
          machine.screen.isLit column row = false
      then 1 else 0 := by
  rw [flag_strike, (strike_eq machine stroke).2.1, same]
  congr 1
  -- A covered pixel is lit behind the first stroke if it was dark before it.
  have turned : ∀ column row, stroke.placement.covers machine.memory column row = true →
      ((machine.strike stroke).machine.screen.isLit column row = true ↔
        machine.screen.isLit column row = false) := by
    intro column row covered
    rw [isLit_strike, covered, Bool.xor_true, Bool.not_eq_true']
  simp only [eq_iff_iff]
  constructor
  · rintro ⟨column, inside, row, below, covered, lit⟩
    exact ⟨column, inside, row, below, covered, (turned column row covered).mp lit⟩
  · rintro ⟨column, inside, row, below, covered, dark⟩
    exact ⟨column, inside, row, below, covered, (turned column row covered).mpr dark⟩

/-- Both flags are down exactly if the sprite has no set bit. A covered pixel was lit or dark, so
it would have raised one of them. -/
theorem flags_down_iff :
    (machine.strike stroke).machine.registers.read Registers.flag = 0 ∧
        ((machine.strike stroke).machine.strike again).machine.registers.read Registers.flag = 0 ↔
      ∀ down < stroke.placement.height,
        machine.memory.read ((stroke.placement.index.toNat + down) % Memory.capacity) = 0 := by
  have raised : ¬(1 : UInt8) = 0 := by decide
  have uncovered := not_congr (stroke.placement.exists_covers_iff machine.memory stroke.low)
  push Not at uncovered
  rw [← uncovered, flag_strike, flag_strike_again machine stroke again same]
  simp only [ite_eq_right_iff, raised, imp_false]
  push Not
  constructor
  · rintro ⟨unlit, undark⟩ column inside row below covered
    exact undark column inside row below covered
      (Bool.eq_false_iff.mpr (unlit column inside row below covered))
  · intro uncovered
    exact ⟨fun column inside row below covered =>
      absurd covered (uncovered column inside row below), fun column inside row below covered =>
      absurd covered (uncovered column inside row below)⟩

end

/-- Strokes that place the same sprites, in whatever order and with whatever registers, lead to
the same screen: a pixel is inverted if an odd number of them covers it. A stroke that is repeated
restores the screen. Its first flag says that a covered pixel was lit, its second one that a
covered pixel was dark, and both are down exactly if the sprite has no set bit.

Order is settled by counting: the parity of the strokes that cover a pixel is the same for every
permutation of their placements, and the screen is nothing but these parities. Permuting strokes
themselves would be too narrow, since equal placements may come from different words. There is no
hypothesis on the machine; a stroke is decoded and executed whatever its status. -/
theorem strokes_compose (machine : Machine) (strokes : List Stroke) :
    (∃ drawn, machine.strikeAll strokes = .ok drawn ∧
        (∀ column row, drawn.screen.isLit column row =
          (machine.screen.isLit column row ^^
            decide ((strokes.countP fun stroke =>
              stroke.placement.covers machine.memory column row) % 2 = 1))) ∧
        ∀ others, (others.map Stroke.placement).Perm (strokes.map Stroke.placement) →
          ∃ other, machine.strikeAll others = .ok other ∧ other.screen = drawn.screen) ∧
      ∀ stroke again : Stroke, again.placement = stroke.placement →
        let covered := stroke.placement.covers machine.memory
        let first := machine.strike stroke
        let second := first.machine.strike again
        first.result = .ok .draw ∧ second.result = .ok .draw ∧
          second.machine.screen = machine.screen ∧
          (first.machine.registers.read Registers.flag =
            if ∃ column < Screen.width, ∃ row < Screen.height,
              covered column row = true ∧ machine.screen.isLit column row = true
            then 1 else 0) ∧
          (second.machine.registers.read Registers.flag =
            if ∃ column < Screen.width, ∃ row < Screen.height,
              covered column row = true ∧ machine.screen.isLit column row = false
            then 1 else 0) ∧
          (first.machine.registers.read Registers.flag = 0 ∧
              second.machine.registers.read Registers.flag = 0 ↔
            ∀ down < stroke.placement.height,
              machine.memory.read ((stroke.placement.index.toNat + down) % Memory.capacity) =
                0) := by
  refine ⟨?_, fun stroke again same => ?_⟩
  · obtain ⟨drawn, done, _, inverted⟩ := strikeAll_eq machine strokes
    refine ⟨drawn, done, inverted, fun others permuted => ?_⟩
    obtain ⟨other, otherDone, _, otherInverted⟩ := strikeAll_eq machine others
    refine ⟨other, otherDone, Screen.ext_isLit _ _ fun column row _ _ => ?_⟩
    have counts := permuted.countP_eq fun placement : Placement =>
      placement.covers machine.memory column row
    rw [List.countP_map, List.countP_map] at counts
    rw [otherInverted, inverted]
    simp only [Function.comp_def] at counts
    rw [counts]
  · intro covered first second
    exact ⟨(strike_eq machine stroke).1, (strike_eq _ again).1,
      screen_strike_again machine stroke again same, flag_strike machine stroke,
      flag_strike_again machine stroke again same, flags_down_iff machine stroke again same⟩

/-- A machine with a sprite of two rows around the end of memory and one lit pixel. -/
def easel : Machine :=
  { powerOn {} (Entropy.cycle #[]) with
    memory := (Memory.zero.write 0xFFF 0x81).write 0x000 0xC0
    screen := Screen.blank.flip 62 30 }

/-- The sprite at the lower right, placed by the first two registers. -/
def corner : Stroke :=
  ⟨0xD012, by decide, (Registers.zero.write 0 62).write 1 30, 0xFFF⟩

/-- The same sprite in the same place, by other registers. -/
def cornerAgain : Stroke :=
  ⟨0xD3F2, by decide, (Registers.zero.write 3 62).write 15 30, 0xFFF⟩

/-- The lower row of the sprite, placed by one register over the upper one. -/
def edge : Stroke := ⟨0xD551, by decide, Registers.zero.write 5 62, 0x1000⟩

/-- Two strokes lead to one screen in either order; the pixel that both cover stays lit. The
stroke in the corner hits this pixel, and taking it back hits the pixels that it lit. -/
theorem easel_restored :
    (∃ one other, easel.strikeAll [corner, edge] = .ok one ∧
        easel.strikeAll [edge, cornerAgain] = .ok other ∧ other.screen = one.screen ∧
        one.screen.isLit 62 30 = true ∧ one.screen.isLit 63 30 = true ∧
        one.screen.isLit 63 31 = true) ∧
      ((easel.strike corner).machine.strike cornerAgain).machine.screen = easel.screen ∧
      (easel.strike corner).machine.registers.read Registers.flag = 1 ∧
      ((easel.strike corner).machine.strike cornerAgain).machine.registers.read
        Registers.flag = 1 := by
  have same : cornerAgain.placement = corner.placement := by decide +kernel
  obtain ⟨⟨one, done, inverted, permuted⟩, repeated⟩ := strokes_compose easel [corner, edge]
  obtain ⟨other, otherDone, screen⟩ := permuted [edge, cornerAgain] (by
    rw [List.map_cons, List.map_cons, same]
    exact List.Perm.swap _ _ _)
  obtain ⟨_, _, restored, hit, hitAgain, _⟩ := repeated corner cornerAgain same
  obtain ⟨struck, lit, beside, dark⟩ :
      corner.placement.covers easel.memory 62 30 = true ∧ easel.screen.isLit 62 30 = true ∧
        corner.placement.covers easel.memory 5 30 = true ∧
        easel.screen.isLit 5 30 = false := by
    decide +kernel
  refine ⟨⟨one, other, done, otherDone, screen, ?_⟩, restored, ?_, ?_⟩
  · rw [inverted, inverted, inverted]
    decide +kernel
  · rw [hit, if_pos ⟨62, by decide, 30, by decide, struck, lit⟩]
  · rw [hitAgain, if_pos ⟨5, by decide, 30, by decide, beside, dark⟩]

end Machine

end Chip8
