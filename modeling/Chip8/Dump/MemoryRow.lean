/-!
# Rows of a memory dump

Data of any length is cut into rows of sixteen bytes, and a row is shown as eight
words of two bytes. The last row may be short: an odd last byte is the high byte
of its word, and words behind the data are zero.

Neighbouring rows of zeros are drawn together into one row that spans them, so no
two rows of zeros stand next to each other. Rows that hold anything else keep
their place.
-/

namespace Chip8.Dump

/-- One row: the indices it spans and its words. A row that stands for several spans all of their
indices and has the words of one. -/
structure MemoryRow where
  first : Nat
  last : Nat
  words : List Nat
  deriving DecidableEq, Repr

namespace MemoryRow

/-- Words in a row. -/
abbrev wordCount : Nat := 8

/-- Bytes in a row. -/
abbrev byteCount : Nat := 2 * wordCount

/-- The row holds zeros only. A short row counts as one if what is there is zero. -/
def isZero (row : MemoryRow) : Bool := row.words.all (· == 0)

/-- The big-endian word at an index; bytes behind the data count as zero, so that a short row has
as many words as any other. -/
def wordAt (data : Array UInt8) (index : Nat) : Nat :=
  256 * (data[index]?.getD 0).toNat + (data[index + 1]?.getD 0).toNat

/-- The row that begins at an index of the data. It spans sixteen indices, or fewer at the end of
the data. -/
def ofData (data : Array UInt8) (first : Nat) : MemoryRow where
  first := first
  last := min (first + byteCount - 1) (data.size - 1)
  words := (List.range wordCount).map fun word => wordAt data (first + 2 * word)

/-- All rows in order, before any are drawn together. The last one may be short, and without data
there is none. -/
def all (data : Array UInt8) : List MemoryRow :=
  (List.range ((data.size + byteCount - 1) / byteCount)).map fun row =>
    ofData data (row * byteCount)

/-- Puts a row in front of rows. Zeros in front of zeros become one row, which then begins where
the row in front did. -/
def join (row : MemoryRow) : List MemoryRow → List MemoryRow
  | [] => [row]
  | next :: rest =>
    if row.isZero && next.isZero then { next with first := row.first } :: rest
    else row :: next :: rest

/-- Draws neighbouring rows of zeros together, from the last row to the first. However many there
are, they end up as one row. -/
def merge (rows : List MemoryRow) : List MemoryRow := rows.foldr join []

end MemoryRow

/-- The rows under which data is shown. -/
def memoryRows (data : Array UInt8) : List MemoryRow := MemoryRow.merge (MemoryRow.all data)

end Chip8.Dump
