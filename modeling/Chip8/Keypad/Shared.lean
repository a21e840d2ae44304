import Chip8.Keypad.Layout

/-!
# Shared keypads

Keypads that several handles write and read. A new handle either joins the keypad
of an existing one or gets a keypad of its own; from then on the keypad that a
handle belongs to never changes. A write through any handle is seen through all
handles of the same keypad and through no other.

A write is data. Whether it is refused depends on the write alone, never on the
keypad, and a refused write changes nothing.
-/

namespace Chip8

/-- A request to change a keypad. -/
inductive KeypadWrite where
  /-- Sets a key by its number. -/
  | key (number : Nat) (pressed : Bool)
  /-- Sets the key that a host character stands for. -/
  | hostKey (char : Char) (pressed : Bool)
  /-- Releases every key. -/
  | releaseAll
  deriving DecidableEq, Repr

/-- What became of a write. -/
inductive WriteReply where
  | written
  /-- There is no such key. -/
  | refused (fault : KeyFault)
  /-- The host character stands for no key. -/
  | unbound
  deriving DecidableEq, Repr

namespace KeypadWrite

/-- The keypad behind a write, and what became of the write. Unless it was written, the keypad is
as it was. -/
def apply (write : KeypadWrite) (keypad : Keypad) : Keypad × WriteReply :=
  match write with
  | key number pressed =>
    match keypad.set number pressed with
    | .ok changed => (changed, .written)
    | .error fault => (keypad, .refused fault)
  | hostKey char pressed =>
    match Keypad.ofHost? char with
    | none => (keypad, .unbound)
    | some number =>
      match keypad.set number pressed with
      | .ok changed => (changed, .written)
      | .error fault => (keypad, .refused fault)
  | releaseAll => (.released, .written)

end KeypadWrite

/-- Keypads and the handles to them. A handle is the position of the keypad that it belongs to.
Both lists only grow, so positions that were given out stay valid. -/
structure SharedKeypads where
  keypads : List Keypad
  handles : List Nat
  deriving DecidableEq

/-- A request to shared keypads; the handle is its position among the handles. -/
inductive SharedRequest where
  /-- Adds a handle to the keypad of a handle. -/
  | join (handle : Nat)
  /-- Adds a handle to a keypad of its own. -/
  | separate
  /-- Writes through a handle. -/
  | write (handle : Nat) (request : KeypadWrite)
  deriving DecidableEq, Repr

namespace SharedKeypads

/-- One handle to one released keypad. -/
def start : SharedKeypads := ⟨[.released], [0]⟩

/-- The keypad that a handle belongs to. A handle that was never given out belongs to a position
behind every keypad. -/
def owner (shared : SharedKeypads) (handle : Nat) : Nat :=
  shared.handles[handle]?.getD shared.keypads.length

/-- What a handle sees. A handle that was never given out sees a released keypad. -/
def view (shared : SharedKeypads) (handle : Nat) : Keypad :=
  shared.keypads[shared.owner handle]?.getD .released

/-- What all handles see, in the order in which they were given out. -/
def views (shared : SharedKeypads) : List Keypad :=
  (List.range shared.handles.length).map shared.view

/-- Obeys a request. Adding a handle always succeeds, and the new handle is the last one. -/
def obey (shared : SharedKeypads) : SharedRequest → SharedKeypads × WriteReply
  | .join handle =>
    ({ shared with handles := shared.handles ++ [shared.owner handle] }, .written)
  | .separate =>
    (⟨shared.keypads ++ [.released], shared.handles ++ [shared.keypads.length]⟩, .written)
  | .write handle request =>
    let (changed, reply) := request.apply (shared.view handle)
    ({ shared with keypads := shared.keypads.set (shared.owner handle) changed }, reply)

/-- The shared keypads after a history of requests. -/
def after (shared : SharedKeypads) (requests : List SharedRequest) : SharedKeypads :=
  requests.foldl (fun current request => (current.obey request).1) shared

/-- A write moves no handle to another keypad; who shares with whom is settled when a handle is
added. -/
theorem owner_write (shared : SharedKeypads) (handle other : Nat) (request : KeypadWrite) :
    (shared.obey (.write handle request)).1.owner other = shared.owner other := by
  simp [obey, owner]

/-- A write through a handle of a keypad is seen through every handle of the same keypad, and
through no other. The handle has to belong to a keypad, since otherwise there is none to be
changed. -/
theorem view_write (shared : SharedKeypads) (handle other : Nat) (request : KeypadWrite)
    (owned : shared.owner handle < shared.keypads.length) :
    (shared.obey (.write handle request)).1.view other =
      if shared.owner other = shared.owner handle then (request.apply (shared.view handle)).1
      else shared.view other := by
  rw [view, owner_write]
  by_cases same : shared.owner other = shared.owner handle
  · simp [obey, same, owned]
  · have apart : shared.owner handle ≠ shared.owner other := fun equal => same equal.symm
    simp [obey, view, same, apart]

end SharedKeypads

end Chip8
