/-!
# Entropy

The bytes that random instructions take, one after the other. The whole stream
is fixed beforehand, and only the number of bytes taken advances; two machines
with the same entropy therefore draw the same bytes for ever.
-/

namespace Chip8

/-- A stream of bytes and how many of them have been taken. The stream has no end, so there is
always a next byte. -/
structure Entropy where
  stream : Nat → UInt8
  taken : Nat

namespace Entropy

/-- Takes the next byte. The stream stays as it is; one more of its bytes is gone. -/
def next (entropy : Entropy) : UInt8 × Entropy :=
  (entropy.stream entropy.taken, { entropy with taken := entropy.taken + 1 })

/-- The bytes of a pattern in turn, starting over at its end. An empty pattern
gives zeros. -/
def cycle (pattern : Array UInt8) : Entropy where
  stream position := pattern[position % pattern.size]?.getD 0
  taken := 0

/-- The byte that will be drawn after a number of further draws. This is all that can be known of
an entropy from the bytes it delivers. -/
def upcoming (entropy : Entropy) (ahead : Nat) : UInt8 := entropy.stream (entropy.taken + ahead)

/-- Taking a byte moves every later one up by one place. -/
theorem upcoming_next (entropy : Entropy) (ahead : Nat) :
    entropy.next.2.upcoming ahead = entropy.upcoming (ahead + 1) := by
  simp only [upcoming, next]
  congr 1
  omega

end Entropy

end Chip8
