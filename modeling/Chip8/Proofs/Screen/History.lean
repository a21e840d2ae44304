import Chip8.Proofs.Machine.GuardedAccess
import Chip8.Proofs.Screen.Flips
import Mathlib.Algebra.Ring.Parity
import Mathlib.Data.Finset.Prod
import Mathlib.Data.List.DropRight

/-!
# Histories of a screen

A screen is toggled and cleared. What it shows is told by its history alone: a pixel is lit if it
was toggled an odd number of times since the last clear, whatever was done to other pixels in
between. Coordinates are any numbers, and two of them are the same pixel exactly if both their
remainders agree, so the lit pixels are counted by pairs of remainders.

Pixels, rows and single reads are three ways to look at one screen. Each of them reaches its
pixel by a place inside of the storage.
-/

namespace Chip8

/-- A request to a screen. There is no other way to change one. -/
inductive ScreenRequest where
  | toggle (x y : Nat)
  | clear
  deriving DecidableEq, Repr

/-- The request toggles the pixel of a position, at whatever coordinates that wrap to it. -/
def ScreenRequest.toggles (x y : Nat) : ScreenRequest → Bool
  | toggle column row => decide (column % 64 = x % 64 ∧ row % 32 = y % 32)
  | clear => false

namespace Screen

/-- Obeys a request. A toggle is answered by whether the pixel was lit, and a clear is not
answered. -/
def obey (screen : Screen) : ScreenRequest → Screen × Option Bool
  | .toggle x y =>
    let (flipped, lit) := screen.flipAll [(x, y)]
    (flipped, some lit)
  | .clear => (.blank, none)

/-- The screen after a history of requests, the first of which comes first in the list. -/
def after (screen : Screen) (history : List ScreenRequest) : Screen :=
  history.foldl (fun current request => (current.obey request).1) screen

/-- How often a history toggles the pixel of a position behind its last clear. This is said of the
requests alone and never looks at a screen. -/
def togglesSinceClear (history : List ScreenRequest) (x y : Nat) : Nat :=
  (history.rtakeWhile (· ≠ .clear)).countP (ScreenRequest.toggles x y)

/-- A toggle inverts its pixel and answers what the pixel was. -/
theorem obey_toggle (screen : Screen) (x y : Nat) :
    screen.obey (.toggle x y) = (screen.flip x y, some (screen.isLit x y)) := by
  simp [obey, flipAll]

/-- One more toggle counts for the pixels that it toggles, and for no other. -/
theorem togglesSinceClear_concat_toggle (earlier : List ScreenRequest) (column row x y : Nat) :
    togglesSinceClear (earlier ++ [.toggle column row]) x y =
      togglesSinceClear earlier x y +
        if column % 64 = x % 64 ∧ row % 32 = y % 32 then 1 else 0 := by
  rw [togglesSinceClear, List.rtakeWhile_concat_pos _ _ _ (by simp), List.countP_append,
    List.countP_singleton]
  simp [togglesSinceClear, ScreenRequest.toggles]

/-- Behind a clear nothing is toggled yet. -/
theorem togglesSinceClear_concat_clear (earlier : List ScreenRequest) (x y : Nat) :
    togglesSinceClear (earlier ++ [.clear]) x y = 0 := by
  rw [togglesSinceClear, List.rtakeWhile_concat_neg _ _ _ (by simp), List.countP_nil]

/-- A pixel is lit if it was toggled an odd number of times since the last clear. The induction is
on the last request: a toggle changes the parity of its own pixel and inverts it, and a clear
starts over on both sides. -/
theorem isLit_after (history : List ScreenRequest) (x y : Nat) :
    (blank.after history).isLit x y = decide (Odd (togglesSinceClear history x y)) := by
  induction history using List.reverseRecOn with
  | nil => simp [after, togglesSinceClear]
  | append_singleton earlier request inductionHypothesis =>
    rw [after] at inductionHypothesis ⊢
    rw [List.foldl_concat]
    cases request with
    | toggle column row =>
      rw [obey_toggle, isLit_flip, inductionHypothesis, togglesSinceClear_concat_toggle]
      by_cases met : column % 64 = x % 64 ∧ row % 32 = y % 32
      · rw [if_pos met, if_pos met, ← decide_not]
        exact decide_eq_decide.mpr Nat.odd_add_one.symm
      · rw [if_neg met, if_neg met, Nat.add_zero]
    | clear => simp [obey, togglesSinceClear_concat_clear]

/-- No position of the screen is listed twice, because its column and row recompose its place. -/
theorem nodup_positions : positions.Nodup := by
  apply List.nodup_range.map
  intro left right same
  simp only [Prod.mk.injEq] at same
  rw [← Nat.div_add_mod left width, ← Nat.div_add_mod right width, same.1, same.2]

/-- Counting the positions of the screen is counting pairs of remainders: the list has each of
these pairs once. -/
theorem countP_positions (condition : Nat × Nat → Bool) :
    positions.countP condition =
      ((Finset.range 64 ×ˢ Finset.range 32).filter (condition · = true)).card := by
  have all : positions.toFinset = Finset.range 64 ×ˢ Finset.range 32 := by
    ext cell
    rw [List.mem_toFinset, mem_positions, Finset.mem_product, Finset.mem_range, Finset.mem_range]
  rw [List.countP_eq_length_filter, ← List.toFinset_card_of_nodup (nodup_positions.filter _),
    List.toFinset_filter, all]

/-- A pixel stands at the place that its wrapped position has among all pixels, and there is
always such a place. -/
theorem getElem?_pixels (screen : Screen) (x y : Nat) :
    screen.pixels.toList[64 * (y % 32) + x % 64]? = some (screen.isLit x y) := by
  have found : (place x y).val = 64 * (y % 32) + x % 64 := by
    simp only [place, width, height, Nat.mul_comm]
  have bound := (place x y).isLt
  rw [found] at bound
  simp [isLit, found, bound]

/-- A pixel stands in the row and in the column of its wrapped position. -/
theorem getElem?_rows (screen : Screen) (x y : Nat) :
    screen.rows[y % 32]?.bind (·[x % 64]?) = some (screen.isLit x y) := by
  have wraps : wrapsTo x y (x % 64, y % 32) = true := by simp [wrapsTo]
  rw [getElem_rows screen _ _ (Nat.mod_lt x (by decide)) (Nat.mod_lt y (by decide)),
    isLit_of_wrapsTo screen x y _ wraps]

/-- A toggle reaches its pixel by a place inside of the storage; the partial access that could
fail is never outside. -/
theorem invert?_of_toggle (screen : Screen) (x y : Nat) :
    screen.invert? (64 * (y % 32) + x % 64) =
      some ((screen.obey (.toggle x y)).1, screen.isLit x y) := by
  rw [obey_toggle, Nat.mul_comm]
  exact invert?_eq screen x y

/-- Behind any history of a new screen, a pixel is lit exactly if it was toggled an odd number of
times since the last clear, at whatever coordinates, and the next toggle of the pixel answers just
that. The lit pixels are as many as there are pairs of remainders with an odd count. All pixels in
order and the rows, of which there are 32, show the same; no place is outside of the storage,
neither for a read nor for a toggle.

Everything follows from the parity of a single pixel, which is kept by each request: two
coordinates are one pixel exactly if both remainders agree, so a toggle never changes another
count. The other views read the same storage at the same place. -/
theorem shows_parities (history : List ScreenRequest) :
    let screen := blank.after history
    (∀ x y, screen.isLit x y = true ↔ Odd (togglesSinceClear history x y)) ∧
      (∀ x y, (screen.obey (.toggle x y)).2 =
        some (decide (Odd (togglesSinceClear history x y)))) ∧
      screen.litCount =
        ((Finset.range 64 ×ˢ Finset.range 32).filter fun cell =>
          Odd (togglesSinceClear history cell.1 cell.2)).card ∧
      screen.rows.length = 32 ∧
      ∀ x y,
        screen.pixels.toList[64 * (y % 32) + x % 64]? = some (screen.isLit x y) ∧
          screen.rows[y % 32]?.bind (·[x % 64]?) = some (screen.isLit x y) ∧
          screen.invert? (64 * (y % 32) + x % 64) =
            some ((screen.obey (.toggle x y)).1, screen.isLit x y) := by
  intro screen
  have lit (x y : Nat) : screen.isLit x y = decide (Odd (togglesSinceClear history x y)) :=
    isLit_after history x y
  refine ⟨?_, ?_, ?_, length_rows screen, ?_⟩
  · intro x y
    rw [lit, decide_eq_true_iff]
  · intro x y
    rw [obey_toggle, lit]
  · rw [litCount_eq_countP, countP_positions]
    simp only [lit, decide_eq_true_iff]
  · intro x y
    exact ⟨getElem?_pixels screen x y, getElem?_rows screen x y, invert?_of_toggle screen x y⟩

example :
    let screen := blank.after [.toggle 1 2, .clear, .toggle 65 34, .toggle 3 4, .toggle 67 4]
    screen.isLit 1 2 = true ∧ screen.isLit 3 4 = false ∧ screen.litCount = 1 := by
  decide +kernel

end Screen

end Chip8
