import Chip8.Fault

/-!
# Call stack

Return addresses of the calls in progress, at most sixteen. The bound is part of
the type: pushing onto a full stack and popping an empty one are refused by name,
and no other operation exists.
-/

namespace Chip8

/-- The greatest depth. -/
abbrev CallStack.capacity : Nat := 16

/-- Return addresses, the innermost call first. That there are at most sixteen is carried along,
so every stack that can be formed at all is within bounds. -/
structure CallStack where
  frames : List UInt16
  bounded : frames.length ≤ CallStack.capacity
  deriving DecidableEq

namespace CallStack

/-- No call in progress. -/
def empty : CallStack := ⟨[], by decide⟩

/-- Enters a call. With every frame in use it is refused, and the test is also the proof that the
new stack is within bounds. -/
def push (stack : CallStack) (address : UInt16) : Except StackFault CallStack :=
  if room : stack.frames.length < capacity then .ok ⟨address :: stack.frames, room⟩
  else .error .full

/-- Leaves the innermost call; answers with its return address. Without a call there is no address
to go to, and that is refused. -/
def pop (stack : CallStack) : Except StackFault (UInt16 × CallStack) :=
  match stack with
  | ⟨[], _⟩ => .error .empty
  | ⟨address :: rest, bounded⟩ => .ok (address, ⟨rest, Nat.le_of_succ_le bounded⟩)

/-- Return addresses in the order of the calls, the outermost first, as they are shown. -/
def toList (stack : CallStack) : List UInt16 := stack.frames.reverse

/-- The number of calls in progress. -/
def depth (stack : CallStack) : Nat := stack.frames.length

/-- Stacks with the same frames are equal. The bound is a proposition and makes no difference. -/
theorem ext_frames (left right : CallStack) (same : left.frames = right.frames) :
    left = right := by
  cases left
  cases right
  congr

/-- A push is refused exactly at the greatest depth. The bound of the type excludes any greater
one. -/
theorem push_eq_error_iff (stack : CallStack) (address : UInt16) (fault : StackFault) :
    stack.push address = .error fault ↔ stack.depth = capacity ∧ fault = .full := by
  have bounded := stack.bounded
  unfold push depth
  split
  · constructor
    · intro impossible
      contradiction
    · intro ⟨full, _⟩
      omega
  · constructor
    · intro refused
      exact ⟨by omega, (Except.error.inj refused).symm⟩
    · intro ⟨_, cause⟩
      rw [cause]

/-- An accepted push puts the address innermost and keeps the rest in its order. -/
theorem frames_of_push (stack next : CallStack) (address : UInt16)
    (pushed : stack.push address = .ok next) : next.frames = address :: stack.frames := by
  unfold push at pushed
  split at pushed
  · exact (Except.ok.inj pushed) ▸ rfl
  · contradiction

/-- A pop is refused exactly without a call, and for no other reason. -/
theorem pop_eq_error_iff (stack : CallStack) (fault : StackFault) :
    stack.pop = .error fault ↔ stack.frames = [] ∧ fault = .empty := by
  obtain ⟨frames, bounded⟩ := stack
  cases frames with
  | nil => simp [pop, eq_comm]
  | cons address rest => simp [pop]

/-- A pop takes exactly the innermost address. With the law of a push this says that a call and
its return leave the stack as it was. -/
theorem frames_of_pop (stack next : CallStack) (address : UInt16)
    (popped : stack.pop = .ok (address, next)) : stack.frames = address :: next.frames := by
  obtain ⟨frames, bounded⟩ := stack
  cases frames with
  | nil => simp [pop] at popped
  | cons innermost rest =>
    simp only [pop, Except.ok.injEq, Prod.mk.injEq] at popped
    obtain ⟨same, remaining⟩ := popped
    rw [← same, ← remaining]

end CallStack

end Chip8
