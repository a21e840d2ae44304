import Chip8.Numeral

/-!
# Screen

64 by 32 pixels, lit or unlit. Every pair of numbers is a position: a column is
taken modulo the width and a row modulo the height, so the screen wraps at its
edges. Pixels are kept row by row, and the place of a position is different from
the place of every other position on the screen.

Flipping is the only way to change a single pixel. It touches the pixel at its
position and no other.
-/

namespace Chip8

/-- Pixels in a row. -/
abbrev Screen.width : Nat := 64

/-- Rows. -/
abbrev Screen.height : Nat := 32

/-- Pixels altogether. -/
abbrev Screen.resolution : Nat := width * height

/-- The pixels, row by row from the top and from the left; a lit pixel is true. -/
structure Screen where
  pixels : Vector Bool Screen.resolution

namespace Screen

/-- Screens are compared along the list of their pixels, which a proof can
evaluate in full. -/
instance : DecidableEq Screen := fun left right =>
  decidable_of_iff (left.pixels.toList = right.pixels.toList) (by
    cases left
    cases right
    simp [Vector.toList_inj])

/-- A screen without a lit pixel. -/
def blank : Screen := ⟨Vector.replicate resolution false⟩

/-- The place of a wrapped position among the pixels. That it is inside of the storage is part of
its type, so no access needs a check. -/
def place (x y : Nat) : Fin resolution :=
  ⟨y % height * width + x % width, by simp only [resolution, width, height]; omega⟩

/-- The pixel at a wrapped position. -/
def isLit (screen : Screen) (x y : Nat) : Bool := screen.pixels[place x y]

/-- Inverts the pixel at a wrapped position. -/
def flip (screen : Screen) (x y : Nat) : Screen :=
  ⟨screen.pixels.set (place x y) (!screen.isLit x y)⟩

/-- Inverts pixels in order. The answer says whether one of them was lit just before it was
inverted, which may be the work of an earlier flip of the same list. -/
def flipAll (screen : Screen) : List (Nat × Nat) → Screen × Bool
  | [] => (screen, false)
  | (x, y) :: rest =>
    let lit := screen.isLit x y
    let (flipped, collided) := (screen.flip x y).flipAll rest
    (flipped, lit || collided)

/-- How many pixels are lit. -/
def litCount (screen : Screen) : Nat := screen.pixels.toList.count true

/-- The rows from the top, each from the left: the pixels cut at every multiple of the width. -/
def rows (screen : Screen) : List (List Bool) :=
  let pixels := screen.pixels.toList
  (List.range height).map fun row => (pixels.drop (row * width)).take width

/-- A row in text: a number sign for a lit pixel, a full stop for an unlit one. -/
def rowText (row : List Bool) : String :=
  String.ofList (row.map fun lit => if lit then '#' else '.')

/-- The screen in text, one line for each row. -/
def lines (screen : Screen) : List String := screen.rows.map rowText

/-- A one-line summary that only counts. -/
def summary (screen : Screen) : String :=
  "Screen \x7b lit: " ++ Numeral.decimal screen.litCount ++ " \x7d"

/-- Two positions share a place exactly when they wrap to the same position. The column is a
remainder below the width, so it never reaches into the next row. -/
theorem place_eq_iff (x y otherX otherY : Nat) :
    (place x y).val = (place otherX otherY).val ↔
      x % width = otherX % width ∧ y % height = otherY % height := by
  simp only [place, width, height]
  omega

/-- A blank screen is dark everywhere. -/
@[simp] theorem isLit_blank (x y : Nat) : blank.isLit x y = false := by
  simp [isLit, blank]

/-- A flip inverts its own pixel and leaves every other one. Which pixel is its own is a matter of
the wrapped position only. -/
theorem isLit_flip (screen : Screen) (x y otherX otherY : Nat) :
    (screen.flip x y).isLit otherX otherY =
      if x % width = otherX % width ∧ y % height = otherY % height
      then !screen.isLit otherX otherY else screen.isLit otherX otherY := by
  simp only [isLit, flip, Fin.getElem_fin, Vector.getElem_set, place_eq_iff]
  split
  · next wrapped =>
    have same := (place_eq_iff x y otherX otherY).mpr wrapped
    simp only [same]
  · rfl

/-- Screens that show the same pixels are equal. Only positions on the screen are asked for: every
place is the one of such a position. -/
theorem ext_isLit (left right : Screen)
    (alike : ∀ x y, x < width → y < height → left.isLit x y = right.isLit x y) :
    left = right := by
  obtain ⟨leftPixels⟩ := left
  obtain ⟨rightPixels⟩ := right
  congr
  apply Vector.ext
  intro index bound
  have column : index % width < width := Nat.mod_lt _ (by decide)
  have row : index / width < height := by
    simp only [resolution, width, height] at bound ⊢
    omega
  have found : (place (index % width) (index / width)).val = index := by
    simp only [place, resolution, width, height] at bound ⊢
    omega
  simpa only [isLit, Fin.getElem_fin, found] using alike _ _ column row

/-- A position wraps to another one. It is a computed condition, so that the positions that meet a
pixel can be counted. -/
def wrapsTo (x y : Nat) (cell : Nat × Nat) : Bool :=
  decide (cell.1 % width = x % width ∧ cell.2 % height = y % height)

/-- Flipping many pixels inverts exactly those that are flipped an odd number of times. The order
of the list therefore does not matter for what is shown, although it does for the answer. -/
theorem isLit_flipAll (screen : Screen) (cells : List (Nat × Nat)) (x y : Nat) :
    (screen.flipAll cells).1.isLit x y =
      (screen.isLit x y ^^ decide (cells.countP (wrapsTo x y) % 2 = 1)) := by
  induction cells generalizing screen with
  | nil => simp [flipAll]
  | cons cell rest inductionHypothesis =>
    obtain ⟨column, row⟩ := cell
    simp only [flipAll, inductionHypothesis, isLit_flip, List.countP_cons]
    by_cases wrapped : column % width = x % width ∧ row % height = y % height
    · have covered : wrapsTo x y (column, row) = true := by simpa [wrapsTo] using wrapped
      have parity : decide ((rest.countP (wrapsTo x y) + 1) % 2 = 1) =
          !decide (rest.countP (wrapsTo x y) % 2 = 1) := by
        rw [← decide_not]
        exact decide_eq_decide.mpr (by omega)
      simp [wrapped, covered, parity]
    · have uncovered : wrapsTo x y (column, row) = false := by simpa [wrapsTo] using wrapped
      simp [wrapped, uncovered]

/-- There are as many rows as the screen is high. -/
@[simp] theorem length_rows (screen : Screen) : screen.rows.length = height := by
  simp [rows]

/-- A row shows its pixels from the left. Both bounds are needed, since rows are lists and have no
pixels behind their ends. -/
theorem getElem_rows (screen : Screen) (x y : Nat) (column : x < width) (row : y < height) :
    screen.rows[y]?.bind (·[x]?) = some (screen.isLit x y) := by
  have bound : y * width + x < resolution := by
    simp only [resolution, width, height] at column row ⊢
    omega
  have found : (place x y).val = y * width + x := by
    simp only [place, Nat.mod_eq_of_lt column, Nat.mod_eq_of_lt row]
  simp [rows, row, column, isLit, found, bound]

end Screen

end Chip8
