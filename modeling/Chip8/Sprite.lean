import Chip8.Screen

/-!
# Sprites

A sprite is a column of bytes. Each byte is a row of eight pixels, the most
significant bit leftmost, and a set bit is a pixel to flip. At an origin a sprite
covers a list of positions; these are not yet wrapped, the screen does that.

A sprite of at most 32 rows is narrower and no higher than the screen, so no two
of its positions wrap to the same pixel.
-/

namespace Chip8.Sprite

/-- Pixels in a row of a sprite. -/
abbrev width : Nat := 8

/-- The bit of a row in a column, counted from the left; so column zero is the most significant
bit. -/
def covers (row : UInt8) (column : Nat) : Bool :=
  row.toNat.testBit (width - 1 - column)

/-- The positions that one row covers, from the left. They are counted on from the origin and may
lie behind the edge of the screen. -/
def rowCells (row : UInt8) (x y : Nat) : List (Nat × Nat) :=
  ((List.range width).filter (covers row)).map fun column => (x + column, y)

/-- The positions that a sprite covers with its upper left corner at an origin,
row by row from the top. -/
def cells : List UInt8 → Nat → Nat → List (Nat × Nat)
  | [], _, _ => []
  | row :: rest, x, y => rowCells row x y ++ cells rest x (y + 1)

/-- A position is covered by a row exactly where the row's bit is set. -/
theorem mem_rowCells (row : UInt8) (x y : Nat) (position : Nat × Nat) :
    position ∈ rowCells row x y ↔
      ∃ column, column < width ∧ covers row column = true ∧ position = (x + column, y) := by
  simp [rowCells, and_assoc, @eq_comm _ position]

/-- A position is covered by a sprite exactly where a set bit of one of its rows puts it. The
induction moves the origin down by one line for the rows behind the first. -/
theorem mem_cells (rows : List UInt8) (x y : Nat) (position : Nat × Nat) :
    position ∈ cells rows x y ↔
      ∃ row column, column < width ∧ (rows[row]?.map (covers · column)) = some true ∧
        position = (x + column, y + row) := by
  induction rows generalizing y with
  | nil => simp [cells]
  | cons first rest inductionHypothesis =>
    rw [cells, List.mem_append, mem_rowCells, inductionHypothesis]
    constructor
    · rintro (⟨column, inside, covered, placed⟩ | ⟨row, column, inside, covered, placed⟩)
      · exact ⟨0, column, inside, by simpa using covered, placed⟩
      · refine ⟨row + 1, column, inside, covered, ?_⟩
        rw [placed, Nat.add_assoc y 1 row, Nat.add_comm 1 row]
    · rintro ⟨row, column, inside, covered, placed⟩
      cases row with
      | zero => exact .inl ⟨column, inside, by simpa using covered, placed⟩
      | succ row =>
        refine .inr ⟨row, column, inside, covered, ?_⟩
        rw [placed, Nat.add_assoc y 1 row, Nat.add_comm 1 row]

/-- Rows whose bits agree in every column are equal. The columns count the bits of a byte from the
other end, and there are no bits beyond them. -/
theorem ext_covers (left right : UInt8)
    (alike : ∀ column < width, covers left column = covers right column) : left = right := by
  apply UInt8.toNat_inj.mp
  apply Nat.eq_of_testBit_eq
  intro bit
  by_cases inside : bit < width
  · have mirrored : width - 1 - (width - 1 - bit) = bit := by omega
    have same := alike (width - 1 - bit) (by omega)
    simpa only [covers, mirrored] using same
  · have bound : 2 ^ width ≤ 2 ^ bit := Nat.pow_le_pow_right (by decide) (Nat.not_lt.mp inside)
    rw [Nat.testBit_lt_two_pow (Nat.lt_of_lt_of_le left.toNat_lt bound),
      Nat.testBit_lt_two_pow (Nat.lt_of_lt_of_le right.toNat_lt bound)]

/-- A row covers a column of its own width at most once, and only in its own line. A row is
narrower than the screen, which is why it cannot meet itself around the edge. -/
theorem countP_rowCells (row : UInt8) (x y column line : Nat) (inside : column < width) :
    (rowCells row x y).countP (Screen.wrapsTo (x + column) line) =
      if y % Screen.height = line % Screen.height ∧ covers row column = true then 1 else 0 := by
  have once : ∀ column < width, (List.range width).countP (· == column) = 1 := by decide
  -- Within the width of a row different columns wrap to different columns of the screen.
  have apart : ∀ other < width,
      ((x + other) % Screen.width = (x + column) % Screen.width ↔ other = column) := by
    intro other bound
    simp only [width, Screen.width] at inside bound ⊢
    omega
  rw [rowCells, List.countP_map, List.countP_filter]
  by_cases counted : y % Screen.height = line % Screen.height ∧ covers row column = true
  · rw [if_pos counted, ← once column inside]
    apply List.countP_congr
    intro other member
    simp only [Screen.wrapsTo, Function.comp_apply, apart other (List.mem_range.mp member),
      counted.1, and_true, Bool.and_eq_true, decide_eq_true_eq, beq_iff_eq, and_iff_left_iff_imp]
    rintro rfl
    exact counted.2
  · rw [if_neg counted, List.countP_eq_zero]
    intro other member
    simp only [Screen.wrapsTo, Function.comp_apply, apart other (List.mem_range.mp member),
      Bool.and_eq_true, decide_eq_true_eq]
    rintro ⟨⟨rfl, line⟩, covered⟩
    exact counted ⟨line, covered⟩

/-- A sprite without a row in a line covers nothing there. Lines are compared after wrapping,
since a row below the lower edge is drawn at the top. -/
theorem countP_cells_of_apart (rows : List UInt8) (x y column line : Nat)
    (inside : column < width)
    (apart : ∀ row < rows.length, (y + row) % Screen.height ≠ line % Screen.height) :
    (cells rows x y).countP (Screen.wrapsTo (x + column) line) = 0 := by
  induction rows generalizing y with
  | nil => rfl
  | cons first rest inductionHypothesis =>
    have later : ∀ row < rest.length, (y + 1 + row) % Screen.height ≠ line % Screen.height := by
      intro row within
      rw [Nat.add_assoc, Nat.add_comm 1 row]
      exact apart (row + 1) (Nat.succ_lt_succ within)
    rw [cells, List.countP_append, countP_rowCells _ _ _ _ _ inside, inductionHypothesis _ later,
      if_neg fun here => apart 0 (Nat.zero_lt_succ _) here.1]

/-- A sprite that is no higher than the screen covers each of its own positions at most once,
namely where the bit of its row is set. Without that bound a row could come around and meet the
line of another one. -/
theorem countP_cells (rows : List UInt8) (x y row column : Nat) (inside : column < width)
    (fits : rows.length ≤ Screen.height) (within : row < rows.length) :
    (cells rows x y).countP (Screen.wrapsTo (x + column) (y + row)) =
      if covers rows[row] column = true then 1 else 0 := by
  induction rows generalizing y row with
  | nil => exact absurd within (Nat.not_lt_zero row)
  | cons first rest inductionHypothesis =>
    simp only [List.length_cons, Screen.height] at fits within
    rw [cells, List.countP_append, countP_rowCells _ _ _ _ _ inside]
    cases row with
    | zero =>
      rw [countP_cells_of_apart rest x (y + 1) column (y + 0) inside]
      · simp
      · intro row bound
        simp only [Screen.height]
        omega
    | succ row =>
      have elsewhere : ¬(y % Screen.height = (y + (row + 1)) % Screen.height) := by
        simp only [Screen.height]
        omega
      have behind : y + (row + 1) = y + 1 + row := by omega
      rw [if_neg fun here => elsewhere here.1, behind,
        inductionHypothesis (y + 1) row (by simp only [Screen.height]; omega) (by omega)]
      simp

end Chip8.Sprite
