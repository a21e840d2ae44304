/-!
# Countdown timers

A byte that counts down to zero and stays there. Who counts, and how often, is
not the timer's concern.
-/

namespace Chip8

/-- A timer by its remaining ticks, at most 255 of them. -/
structure Countdown where
  value : UInt8
  deriving DecidableEq

namespace Countdown

/-- A timer that has run out. -/
def zero : Countdown := ⟨0⟩

/-- One tick. A timer at zero stays at zero; it does not start over. -/
def tick (timer : Countdown) : Countdown :=
  if timer.value = 0 then timer else ⟨timer.value - 1⟩

/-- Ticks remain. -/
def isActive (timer : Countdown) : Bool := timer.value != 0

/-- A tick is subtraction that stops at zero. The law of natural subtraction then replaces the
case split of the definition everywhere else. -/
theorem toNat_tick (timer : Countdown) : timer.tick.value.toNat = timer.value.toNat - 1 := by
  unfold tick
  split
  · next stopped => simp [stopped]
  · next running =>
    have positive : 1 ≤ timer.value := by
      rw [UInt8.le_iff_toNat_le]
      have nonzero : timer.value.toNat ≠ 0 := fun zero => running (UInt8.toNat_inj.mp zero)
      exact Nat.pos_of_ne_zero nonzero
    simp [UInt8.toNat_sub_of_le _ _ positive]

/-- A timer is active exactly above zero, as a number. -/
theorem isActive_iff (timer : Countdown) : timer.isActive = true ↔ 0 < timer.value.toNat := by
  unfold isActive
  rw [bne_iff_ne, Nat.pos_iff_ne_zero]
  exact not_congr UInt8.toNat_inj.symm

end Countdown

end Chip8
