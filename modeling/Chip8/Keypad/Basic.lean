import Chip8.Fault

/-!
# Keypad

Sixteen keys, numbered from zero, each pressed or not. A key outside of the
keypad is never pressed and cannot be set; asking to set it is refused with its
number and changes nothing.
-/

namespace Chip8

/-- The number of keys. -/
abbrev Keypad.count : Nat := 16

/-- Which keys are pressed, by number. -/
structure Keypad where
  keys : Vector Bool Keypad.count
  deriving DecidableEq

namespace Keypad

/-- No key pressed. -/
def released : Keypad := ⟨Vector.replicate count false⟩

/-- The keypad on which exactly the keys of a condition are pressed. What the condition says of
other numbers is ignored. -/
def ofKeys (pressed : Nat → Bool) : Keypad := ⟨Vector.ofFn fun key => pressed key.val⟩

/-- A key is pressed; numbers from sixteen on are not keys. -/
def isPressed (keypad : Keypad) (key : Nat) : Bool := keypad.keys[key]?.getD false

/-- Sets one key. A number that is no key is refused, whether it was to be pressed or released. -/
def set (keypad : Keypad) (key : Nat) (pressed : Bool) : Except KeyFault Keypad :=
  if inside : key < count then .ok ⟨keypad.keys.set key pressed⟩ else .error (.noSuchKey key)

/-- The lowest pressed key, found by asking for each in turn. -/
def lowestPressed (keypad : Keypad) : Option Nat := (List.range count).find? keypad.isPressed

/-- The state of every key, key zero first. -/
def toList (keypad : Keypad) : List Bool := keypad.keys.toList

/-- No key of a released keypad is pressed. -/
@[simp] theorem isPressed_released (key : Nat) : released.isPressed key = false := by
  simp only [isPressed, released, Vector.getElem?_replicate]
  split <;> rfl

/-- Outside of the keypad nothing is pressed, so a key may be asked for by any number. -/
theorem isPressed_outside (keypad : Keypad) (key : Nat) (outside : count ≤ key) :
    keypad.isPressed key = false := by
  simp [isPressed, Vector.getElem?_eq_none outside]

/-- Setting is refused exactly for a number that is not a key, and the refusal names it. What the
keypad holds makes no difference. -/
theorem set_eq_error_iff (keypad : Keypad) (key : Nat) (pressed : Bool) (fault : KeyFault) :
    keypad.set key pressed = .error fault ↔ count ≤ key ∧ fault = .noSuchKey key := by
  unfold set
  split
  · next inside =>
    constructor
    · intro impossible
      contradiction
    · intro ⟨outside, _⟩
      omega
  · next outside =>
    constructor
    · intro refused
      exact ⟨Nat.not_lt.mp outside, (Except.error.inj refused).symm⟩
    · intro ⟨_, cause⟩
      rw [cause]

/-- Setting a key changes that key and no other. -/
theorem isPressed_of_set (keypad next : Keypad) (key other : Nat) (pressed : Bool)
    (accepted : keypad.set key pressed = .ok next) :
    next.isPressed other = if key = other then pressed else keypad.isPressed other := by
  unfold set at accepted
  split at accepted
  · next inside =>
    rw [← Except.ok.inj accepted]
    simp only [isPressed, Vector.getElem?_set]
    split <;> rfl
  · contradiction

/-- Nothing is the lowest pressed key exactly when no key is pressed. The search goes over sixteen
keys, and of all other numbers it is known. -/
theorem lowestPressed_eq_none_iff (keypad : Keypad) :
    keypad.lowestPressed = none ↔ ∀ key, keypad.isPressed key = false := by
  unfold lowestPressed
  rw [List.find?_eq_none]
  constructor
  · intro allReleased key
    by_cases inside : key < count
    · simpa using allReleased key (List.mem_range.mpr inside)
    · exact isPressed_outside keypad key (Nat.not_lt.mp inside)
  · intro allReleased key _
    simp [allReleased key]

/-- The lowest pressed key is pressed, and no lower one is. These two determine it, so the search
need not be looked at again. -/
theorem lowestPressed_eq_some_iff (keypad : Keypad) (key : Nat) :
    keypad.lowestPressed = some key ↔
      keypad.isPressed key = true ∧ ∀ lower, lower < key → keypad.isPressed lower = false := by
  unfold lowestPressed
  rw [List.find?_range_eq_some]
  constructor
  · rintro ⟨pressed, _, lowest⟩
    exact ⟨pressed, fun lower below => by simpa using lowest lower below⟩
  · rintro ⟨pressed, lowest⟩
    have inside : key < count := by
      apply Nat.lt_of_not_le
      intro outside
      rw [isPressed_outside keypad key outside] at pressed
      contradiction
    refine ⟨pressed, List.mem_range.mpr inside, ?_⟩
    intro lower below
    simp [lowest lower below]

end Keypad

end Chip8
