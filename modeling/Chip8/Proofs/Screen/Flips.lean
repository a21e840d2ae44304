import Chip8.Sprite

/-!
# Flips of a screen

Many flips make of a screen what their parities say, pixel by pixel, and from this every
count of pixels follows. A sprite that is no higher than the screen flips no pixel twice:
it paints a pixel or it does not. Its flips then report exactly whether a pixel that it
paints was lit at the start, although each of them only sees its own pixel at its own time.
-/

namespace Chip8

/-- Two conditions count together what their exclusive disjunction and twice their conjunction
count. Each value is on one side of the equation as often as on the other, whichever of the
conditions it satisfies. -/
theorem countP_xor {α : Type} (values : List α) (left right : α → Bool) :
    values.countP (fun value => left value ^^ right value) +
        2 * values.countP (fun value => left value && right value) =
      values.countP left + values.countP right := by
  induction values with
  | nil => rfl
  | cons value rest inductionHypothesis =>
    simp only [List.countP_cons]
    cases left value <;> cases right value <;> simp <;> omega

namespace Screen

/-- The positions of the pixels, row by row from the top and from the left, in the order of their
places. -/
def positions : List (Nat × Nat) :=
  (List.range resolution).map fun index => (index % width, index / width)

/-- How far behind an origin a place lies, along an edge of a length that wraps. An origin beyond
the edge is wrapped first. -/
def offset (length origin place : Nat) : Nat := (place + length - origin % length) % length

/-- The positions are those whose column and row are on the screen. A place is divided by the
width: the quotient is the row, the remainder the column. -/
theorem mem_positions (cell : Nat × Nat) :
    cell ∈ positions ↔ cell.1 < width ∧ cell.2 < height := by
  obtain ⟨column, row⟩ := cell
  simp only [positions, List.mem_map, List.mem_range, Prod.mk.injEq]
  constructor
  · rintro ⟨index, inside, rfl, rfl⟩
    simp only [resolution, width, height] at inside ⊢
    omega
  · rintro ⟨inside, below⟩
    refine ⟨row * width + column, ?_, ?_, ?_⟩ <;> simp only [resolution, width, height] at * <;>
      omega

/-- One of the positions satisfies a condition if a pixel of some column and row does. -/
theorem any_positions_iff (condition : Nat × Nat → Bool) :
    positions.any condition = true ↔
      ∃ column < width, ∃ row < height, condition (column, row) = true := by
  simp only [List.any_eq_true, mem_positions, Prod.exists]
  constructor
  · rintro ⟨column, row, ⟨inside, below⟩, satisfied⟩
    exact ⟨column, inside, row, below, satisfied⟩
  · rintro ⟨column, inside, row, below, satisfied⟩
    exact ⟨column, row, ⟨inside, below⟩, satisfied⟩

/-- The pixels stand in the order of their positions. So what is counted over the storage can be
counted over columns and rows. -/
theorem toList_pixels (screen : Screen) :
    screen.pixels.toList = positions.map fun cell => screen.isLit cell.1 cell.2 := by
  apply List.ext_getElem
  · simp [positions]
  · intro index inside _
    have bound : index < resolution := by simpa using inside
    have found : (place (index % width) (index / width)).val = index := by
      simp only [place, resolution, width, height] at bound ⊢
      omega
    simp [positions, isLit, found]

/-- The lit pixels are those of the lit positions, counted once each. -/
theorem litCount_eq_countP (screen : Screen) :
    screen.litCount = positions.countP fun cell => screen.isLit cell.1 cell.2 := by
  rw [litCount, toList_pixels, List.count, List.countP_map]
  apply List.countP_congr
  intro cell _
  simp

/-- A position and the one that it wraps to are the same pixel. -/
theorem isLit_of_wrapsTo (screen : Screen) (x y : Nat) (cell : Nat × Nat)
    (wraps : wrapsTo x y cell = true) : screen.isLit cell.1 cell.2 = screen.isLit x y := by
  have same : (place cell.1 cell.2).val = (place x y).val :=
    (place_eq_iff _ _ _ _).mpr (of_decide_eq_true wraps)
  simp only [isLit, Fin.getElem_fin, same]

/-- Flips that meet no pixel twice find a lit one exactly if one of their pixels was lit to begin
with. A flip only sees its own pixel at its own time; since no earlier one has met that pixel, it
sees the original. If a pixel could be met twice, the second flip would find what the first had
lit. -/
theorem collided_flipAll (screen : Screen) (cells : List (Nat × Nat))
    (once : ∀ cell ∈ cells, cells.countP (wrapsTo cell.1 cell.2) ≤ 1) :
    (screen.flipAll cells).2 = true ↔ ∃ cell ∈ cells, screen.isLit cell.1 cell.2 = true := by
  induction cells generalizing screen with
  | nil => simp [flipAll]
  | cons cell rest inductionHypothesis =>
    obtain ⟨x, y⟩ := cell
    have first := once (x, y) List.mem_cons_self
    have here : wrapsTo x y (x, y) = true := by simp [wrapsTo]
    simp only [List.countP_cons, here, if_true] at first
    have untouched : ∀ later ∈ rest,
        (screen.flip x y).isLit later.1 later.2 = screen.isLit later.1 later.2 := by
      intro later member
      rw [isLit_flip, if_neg]
      rintro ⟨column, row⟩
      have counted : 0 < rest.countP (wrapsTo x y) :=
        List.countP_pos_iff.mpr ⟨later, member, by simp [wrapsTo, column, row]⟩
      omega
    have behind : ∀ later ∈ rest, rest.countP (wrapsTo later.1 later.2) ≤ 1 := by
      intro later member
      have bound := once later (List.mem_cons_of_mem _ member)
      rw [List.countP_cons] at bound
      omega
    have same : (∃ later ∈ rest, (screen.flip x y).isLit later.1 later.2 = true) ↔
        ∃ later ∈ rest, screen.isLit later.1 later.2 = true :=
      exists_congr fun later => and_congr_right fun member => by rw [untouched later member]
    rw [flipAll, Bool.or_eq_true, inductionHypothesis _ behind, same]
    simp only [List.mem_cons, exists_eq_or_imp]

/-- Flips that meet a pixel at most once change the number of lit pixels by one for each pixel
that they meet, upwards or downwards. The equation has no subtraction: lit pixels that are met go
out, and they count twice against what is met. -/
theorem litCount_of_inverted (before after : Screen) (met : Nat → Nat → Bool)
    (inverted : ∀ column < width, ∀ row < height,
      after.isLit column row = (before.isLit column row ^^ met column row)) :
    after.litCount +
        2 * positions.countP (fun cell => met cell.1 cell.2 && before.isLit cell.1 cell.2) =
      before.litCount + positions.countP fun cell => met cell.1 cell.2 := by
  have same : after.litCount =
      positions.countP fun cell => met cell.1 cell.2 ^^ before.isLit cell.1 cell.2 := by
    rw [litCount_eq_countP]
    apply List.countP_congr
    intro cell member
    obtain ⟨column, row⟩ := (mem_positions cell).mp member
    rw [inverted _ column _ row, Bool.xor_comm]
  rw [same, countP_xor, litCount_eq_countP before, Nat.add_comm]

end Screen

namespace Sprite

/-- The sprite with its upper left corner at an origin covers the pixel that a position wraps to:
one of its rows lies in the line of the pixel, and has a bit for its column. This is computed from
the pixel, without looking through the positions of the sprite. -/
def paints (rows : List UInt8) (x y column line : Nat) : Bool :=
  let across := Screen.offset Screen.width x column
  (rows[Screen.offset Screen.height y line]?).any fun row =>
    decide (across < width) && covers row across

/-- A sprite that is no higher than the screen meets a pixel once if it paints it, and otherwise
not at all. The pixel is rewritten as the one that lies so far across and so far down from the
origin; then it is inside of the sprite, below it, or beside it. -/
theorem countP_cells_eq (rows : List UInt8) (x y column line : Nat)
    (fits : rows.length ≤ Screen.height) :
    (cells rows x y).countP (Screen.wrapsTo column line) =
      if paints rows x y column line then 1 else 0 := by
  generalize reached : Screen.offset Screen.width x column = across
  generalize lowered : Screen.offset Screen.height y line = down
  have sameColumn : (x + across) % Screen.width = column % Screen.width := by
    simp only [Screen.offset, Screen.width] at reached ⊢
    omega
  have sameLine : (y + down) % Screen.height = line % Screen.height := by
    simp only [Screen.offset, Screen.height] at lowered ⊢
    omega
  have wraps : Screen.wrapsTo column line = Screen.wrapsTo (x + across) (y + down) := by
    funext cell
    simp only [Screen.wrapsTo, sameColumn, sameLine]
  simp only [paints, reached, lowered, wraps]
  by_cases narrow : across < width
  · by_cases within : down < rows.length
    · simp [countP_cells rows x y down across narrow fits within, narrow, within]
    · rw [countP_cells_of_apart rows x y across (y + down) narrow]
      · simp [within]
      · intro row bound
        simp only [Screen.offset, Screen.height] at lowered fits ⊢
        omega
  · have apart : (cells rows x y).countP (Screen.wrapsTo (x + across) (y + down)) = 0 := by
      rw [List.countP_eq_zero]
      intro cell member
      obtain ⟨row, other, inside, _, rfl⟩ := (mem_cells rows x y cell).mp member
      simp only [Screen.wrapsTo, decide_eq_true_eq, not_and]
      intro same
      simp only [Screen.offset, width, Screen.width] at reached narrow inside same
      omega
    simp [apart, narrow]

variable (rows : List UInt8) (x y : Nat) (fits : rows.length ≤ Screen.height) (screen : Screen)

include fits

/-- A sprite paints the pixels that its positions wrap to. The bound is needed: a row further down
than the screen is high would come around to a line in which another row is looked for. -/
theorem paints_iff (column line : Nat) :
    paints rows x y column line = true ↔
      ∃ cell ∈ cells rows x y, Screen.wrapsTo column line cell = true := by
  rw [← List.countP_pos_iff, countP_cells_eq rows x y column line fits]
  cases paints rows x y column line <;> simp

/-- A drawn sprite inverts the pixels that it paints. It meets each of them once, and once is odd.
-/
theorem isLit_flipAll_cells (column line : Nat) :
    (screen.flipAll (cells rows x y)).1.isLit column line =
      (screen.isLit column line ^^ paints rows x y column line) := by
  rw [Screen.isLit_flipAll, countP_cells_eq rows x y column line fits]
  cases paints rows x y column line <;> rfl

/-- A drawn sprite reports whether a pixel that it paints was lit. Its positions are not yet
wrapped, while the pixels are looked for on the screen; each position stands for the pixel that it
wraps to. -/
theorem collided_flipAll_cells :
    (screen.flipAll (cells rows x y)).2 =
      Screen.positions.any fun cell =>
        paints rows x y cell.1 cell.2 && screen.isLit cell.1 cell.2 := by
  have once : ∀ cell ∈ cells rows x y,
      (cells rows x y).countP (Screen.wrapsTo cell.1 cell.2) ≤ 1 := by
    intro cell _
    rw [countP_cells_eq rows x y _ _ fits]
    split <;> omega
  rw [Bool.eq_iff_iff, Screen.collided_flipAll screen _ once, List.any_eq_true]
  constructor
  · rintro ⟨cell, member, lit⟩
    -- The pixel of the position is the one on the screen that it wraps to.
    have wraps : Screen.wrapsTo (cell.1 % Screen.width) (cell.2 % Screen.height) cell = true := by
      simp [Screen.wrapsTo]
    refine ⟨(cell.1 % Screen.width, cell.2 % Screen.height), ?_, ?_⟩
    · exact (Screen.mem_positions _).mpr ⟨Nat.mod_lt _ (by decide), Nat.mod_lt _ (by decide)⟩
    · rw [Bool.and_eq_true, ← Screen.isLit_of_wrapsTo screen _ _ cell wraps]
      exact ⟨(paints_iff rows x y fits _ _).mpr ⟨cell, member, wraps⟩, lit⟩
  · rintro ⟨cell, _, both⟩
    obtain ⟨painted, lit⟩ := Bool.and_eq_true_iff.mp both
    obtain ⟨met, member, wraps⟩ := (paints_iff rows x y fits _ _).mp painted
    exact ⟨met, member, (Screen.isLit_of_wrapsTo screen _ _ met wraps).trans lit⟩

end Sprite

end Chip8
