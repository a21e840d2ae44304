import Chip8.Keypad.Basic

/-!
# Keypad layout

The keypad is a square of four rows. A host keyboard offers a square of its own
in the same arrangement, and a host character stands for the key in its place.
Upper-case letters of the Latin alphabet stand for their lower-case forms; no
other character is folded.
-/

namespace Chip8.Keypad

/-- The key numbers as they are arranged on the keypad. -/
def layout : List (List Nat) :=
  [[0x1, 0x2, 0x3, 0xC],
   [0x4, 0x5, 0x6, 0xD],
   [0x7, 0x8, 0x9, 0xE],
   [0xA, 0x0, 0xB, 0xF]]

/-- The host characters in the same arrangement. -/
def hostLayout : List (List Char) :=
  [['1', '2', '3', '4'],
   ['q', 'w', 'e', 'r'],
   ['a', 's', 'd', 'f'],
   ['z', 'x', 'c', 'v']]

/-- Host characters with the key in their place. The two squares are read row by row and paired
off. -/
def bindings : List (Char × Nat) := hostLayout.flatten.zip layout.flatten

/-- The key that a host character stands for, if it stands for one. -/
def ofHost? (char : Char) : Option Nat := bindings.lookup char.toLower

/-- Every key of the keypad has its place in the layout, and nothing else has. Both directions are
checked over the sixteen keys. -/
theorem mem_layout (key : Nat) : key ∈ layout.flatten ↔ key < count := by
  constructor
  · intro placed
    have bounded : ∀ number ∈ layout.flatten, number < count := by decide
    exact bounded key placed
  · intro inside
    have covered : ∀ number : Fin count, number.val ∈ layout.flatten := by decide
    exact covered ⟨key, inside⟩

/-- A bound character stands for a key of the keypad, so a write by a host character is never
refused for its number. -/
theorem ofHost?_lt (char : Char) (key : Nat) (bound : ofHost? char = some key) : key < count := by
  have bounded : ∀ binding ∈ bindings, binding.2 < count := by decide
  obtain ⟨before, after, split, _⟩ := List.lookup_eq_some_iff.mp bound
  exact bounded (char.toLower, key) (by rw [split]; simp)

end Chip8.Keypad
