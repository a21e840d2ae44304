import Chip8.Keypad.Shared
import Mathlib.Logic.Basic

/-!
# What one write makes of a keypad

A write names a key by its number or by a host character, or it releases all keys. Characters
are other names of numbers: a bound one writes as its number does, and every key has one. A name
that stands for no key is answered as such, and the keypad stays as it is.
-/

namespace Chip8

namespace Keypad

/-- A host character stands for a key exactly if its lower-case form is in the host layout. The
characters of the bindings are those of the layout, since both squares have the same number of
places. -/
theorem ofHost?_eq_none_iff (char : Char) :
    ofHost? char = none ↔ char.toLower ∉ hostLayout.flatten := by
  have characters : bindings.map Prod.fst = hostLayout.flatten := by decide
  rw [ofHost?, List.lookup_eq_none_iff, ← characters, List.mem_map]
  simp only [not_exists, not_and, bne_iff_ne]
  exact forall₂_congr fun binding _ => ne_comm

/-- Every key has a host character: that of its place in the layout. No character is bound twice,
so looking it up gives that key. -/
theorem exists_ofHost?_eq (key : Nat) (inside : key < count) :
    ∃ char, ofHost? char = some key := by
  have keys : bindings.map Prod.snd = layout.flatten := by decide
  have stands : ∀ binding ∈ bindings, ofHost? binding.1 = some binding.2 := by decide
  have placed := (mem_layout key).mpr inside
  rw [← keys] at placed
  obtain ⟨binding, bound, rfl⟩ := List.mem_map.mp placed
  exact ⟨binding.1, stands binding bound⟩

end Keypad

namespace KeypadWrite

/-- What a write makes of a key, if it writes the key. It does not depend on a keypad, because no
write looks at what was pressed before. -/
def gives? (write : KeypadWrite) (key : Nat) : Option Bool :=
  match write with
  | .key number pressed => if number = key ∧ key < 16 then some pressed else none
  | .hostKey char pressed => if Keypad.ofHost? char = some key then some pressed else none
  | .releaseAll => some false

/-- A bound host character writes its key as the number of the key does, so laws of numbers are
laws of characters. -/
theorem apply_hostKey (char : Char) (number : Nat) (pressed : Bool) (keypad : Keypad)
    (bound : Keypad.ofHost? char = some number) :
    (hostKey char pressed).apply keypad = (key number pressed).apply keypad := by
  simp only [apply, bound]

/-- An unbound host character is answered as such and writes nothing. -/
theorem apply_hostKey_of_unbound (char : Char) (pressed : Bool) (keypad : Keypad)
    (unbound : Keypad.ofHost? char = none) :
    (hostKey char pressed).apply keypad = (keypad, .unbound) := by
  simp only [apply, unbound]

/-- A number that is no key is refused and writes nothing. The refusal names the number. -/
theorem apply_key_of_outside (number : Nat) (pressed : Bool) (keypad : Keypad)
    (outside : 16 ≤ number) :
    (key number pressed).apply keypad = (keypad, .refused (.noSuchKey number)) := by
  have refused := (Keypad.set_eq_error_iff keypad number pressed _).mpr ⟨outside, rfl⟩
  simp only [apply, refused]

/-- The number of a key writes the key and no other. -/
theorem apply_key (number : Nat) (pressed : Bool) (keypad : Keypad) (inside : number < 16) :
    ((key number pressed).apply keypad).2 = .written ∧
      ∀ other, ((key number pressed).apply keypad).1.isPressed other =
        if number = other then pressed else keypad.isPressed other := by
  cases set : keypad.set number pressed with
  | ok changed =>
    simp only [apply, set, true_and]
    exact fun other => Keypad.isPressed_of_set keypad changed number other pressed set
  | error fault =>
    have outside := ((Keypad.set_eq_error_iff keypad number pressed fault).mp set).1
    exact absurd inside (Nat.not_lt.mpr outside)

/-- A host character writes a key exactly if its lower-case form is in the host layout. A bound
one is never refused, since it is bound to a key of the keypad. -/
theorem reply_hostKey_iff (char : Char) (pressed : Bool) (keypad : Keypad) :
    ((hostKey char pressed).apply keypad).2 = .written ↔
      char.toLower ∈ Keypad.hostLayout.flatten := by
  rw [← not_iff_not, ← Keypad.ofHost?_eq_none_iff]
  cases bound : Keypad.ofHost? char with
  | none => simp [apply_hostKey_of_unbound char pressed keypad bound]
  | some number =>
    rw [apply_hostKey char number pressed keypad bound]
    simp [(apply_key number pressed keypad (Keypad.ofHost?_lt char number bound)).1]

/-- Behind a write a key is what the write makes of it, or what it was. This is the only law of
writes that histories need; the split follows the kinds of write and whether they name a key at
all. -/
theorem isPressed_apply (write : KeypadWrite) (keypad : Keypad) (key : Nat) :
    (write.apply keypad).1.isPressed key = (write.gives? key).getD (keypad.isPressed key) := by
  cases write with
  | key number pressed =>
    by_cases inside : number < 16
    · rw [(apply_key number pressed keypad inside).2, gives?]
      by_cases same : number = key
      · simp [same, same ▸ inside]
      · simp [same]
    · rw [apply_key_of_outside number pressed keypad (Nat.not_lt.mp inside), gives?, if_neg]
      · rfl
      · rintro ⟨rfl, within⟩
        exact inside within
  | hostKey char pressed =>
    cases bound : Keypad.ofHost? char with
    | none => simp [apply_hostKey_of_unbound char pressed keypad bound, gives?, bound]
    | some number =>
      rw [apply_hostKey char number pressed keypad bound,
        (apply_key number pressed keypad (Keypad.ofHost?_lt char number bound)).2, gives?, bound]
      by_cases same : number = key <;> simp [same]
  | releaseAll => simp [apply, gives?]

end KeypadWrite

end Chip8
