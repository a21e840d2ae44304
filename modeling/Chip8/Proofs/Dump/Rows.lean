import Chip8.Proofs.Text.Tokens
import Mathlib.Data.List.Chain

/-!
# Rows of memory under a dump

The rows under which data is shown tile it: each index is in one row. Cutting the data makes
rows that do, and drawing two of them together keeps it, since they stand next to each other.
A row always shows its own bytes, so its text tells whether they are all zero, and what they
are if not.
-/

namespace Chip8.Dump

/-- Rows follow each other without a gap from one index up to another, each with at least one
index. The end of a row is an argument of what follows, so that tiling can be taken apart from the
left. -/
def Tiles (start : Nat) : List MemoryRow → Nat → Prop
  | [], stop => start = stop
  | row :: rest, stop => row.first = start ∧ row.first ≤ row.last ∧ Tiles (row.last + 1) rest stop

/-- The data has bytes from one index to another, and all of them are zero. That the bytes are
there is part of it, so no stretch behind the data counts as zeros. -/
def ZeroFrom (data : Array UInt8) (first last : Nat) : Prop :=
  ∀ index, first ≤ index → index ≤ last → data[index]? = some 0

/-- Stretches of zeros that follow each other are one, which is why two rows of zeros may be drawn
together. -/
theorem zeroFrom_join {data : Array UInt8} {first middle last : Nat}
    (left : ZeroFrom data first middle) (right : ZeroFrom data (middle + 1) last) :
    ZeroFrom data first last := by
  intro index lower upper
  by_cases within : index ≤ middle
  · exact left index lower within
  · exact right index (by omega) upper

/-- Every index is in a row. The induction looks into the first row, and otherwise the index lies
in what the others tile. -/
theorem Tiles.exists_row {start stop : Nat} {rows : List MemoryRow}
    (tiles : Tiles start rows stop) (index : Nat) (lower : start ≤ index) (upper : index < stop) :
    ∃ row ∈ rows, row.first ≤ index ∧ index ≤ row.last := by
  induction rows generalizing start with
  | nil =>
    have empty : start = stop := tiles
    omega
  | cons row rest inductionHypothesis =>
    obtain ⟨begins, ordered, behind⟩ := tiles
    by_cases within : index ≤ row.last
    · exact ⟨row, List.mem_cons_self, by omega, within⟩
    · obtain ⟨found, member, bounds⟩ := inductionHypothesis behind (by omega)
      exact ⟨found, List.mem_cons_of_mem _ member, bounds⟩

namespace MemoryRow

/-- A row shows its own bytes of the data: it tells whether they are all zero, and unless they are
it is one of the rows into which the data is cut. A row that was drawn together from several
satisfies this too, since nothing but its span and its zeros is asked of it. -/
structure Shows (row : MemoryRow) (data : Array UInt8) : Prop where
  inside : row.first < data.size
  isZero_iff : row.isZero = true ↔ ZeroFrom data row.first row.last
  whole : row.isZero = false → row.first % byteCount = 0 ∧ row = ofData data row.first

/-- A word is zero if its bytes are, and bytes behind the data are. A short last row may therefore
count as zeros although its last words have no bytes. -/
theorem wordAt_eq_zero_iff (data : Array UInt8) (index : Nat) :
    wordAt data index = 0 ↔ data[index]?.getD 0 = 0 ∧ data[index + 1]?.getD 0 = 0 := by
  rw [← UInt8.toNat_inj, ← UInt8.toNat_inj]
  simp only [wordAt, UInt8.toNat_zero]
  omega

/-- An index in a row of full length is that of the high or of the low byte of one of its words.
So what holds of both bytes of each word holds of the whole row. -/
theorem exists_word {first index : Nat} (lower : first ≤ index)
    (upper : index < first + byteCount) :
    ∃ word < wordCount, index = first + 2 * word ∨ index = first + 2 * word + 1 := by
  simp only [byteCount, wordCount] at upper ⊢
  exact ⟨(index - first) / 2, by omega, by omega⟩

/-- The words of a cut row are zero exactly if its bytes are. From words to bytes, each byte is in
one of the words; from bytes to words, a byte of a word is either in the row or behind the data,
where it counts as zero. -/
theorem isZero_ofData_iff (data : Array UInt8) (first : Nat) (inside : first < data.size) :
    (ofData data first).isZero = true ↔ ZeroFrom data first (ofData data first).last := by
  simp only [isZero, ofData, List.all_map, List.all_eq_true, List.mem_range, Function.comp_apply,
    beq_iff_eq, wordAt_eq_zero_iff]
  constructor
  · intro zeros index lower upper
    have bound : index < data.size := by omega
    have within : index < first + byteCount := by
      simp only [byteCount, wordCount] at upper ⊢
      omega
    obtain ⟨word, narrow, rfl | rfl⟩ := exists_word lower within
    · simpa [bound] using (zeros word narrow).1
    · simpa [bound] using (zeros word narrow).2
  · intro zeros word narrow
    have byte (index : Nat) (lower : first ≤ index) (upper : index < first + byteCount) :
        data[index]?.getD 0 = 0 := by
      by_cases bound : index < data.size
      · simp [zeros index lower (by omega)]
      · simp [Array.getElem?_eq_none (Nat.not_lt.mp bound)]
    simp only [byteCount, wordCount] at byte narrow
    exact ⟨byte _ (by omega) (by omega), byte _ (by omega) (by omega)⟩

/-- A row that is cut from the data shows its bytes. That it begins inside of the data is needed,
since a row behind the data would have words that are zero and no byte at all. -/
theorem shows_ofData (data : Array UInt8) (first : Nat) (inside : first < data.size)
    (aligned : first % byteCount = 0) : (ofData data first).Shows data where
  inside := inside
  isZero_iff := isZero_ofData_iff data first inside
  whole _ := ⟨aligned, rfl⟩

/-- The rows into which data is cut, from any one of them on, tile what is left of it. The
induction is on how many rows remain; each begins where the one before it ends, and the last one
ends with the data. -/
theorem tiles_ofData (data : Array UInt8) (row count : Nat)
    (complete : row + count = (data.size + byteCount - 1) / byteCount) :
    Tiles (min (row * byteCount) data.size)
      ((List.range' row count).map fun row => ofData data (row * byteCount)) data.size := by
  simp only [byteCount, wordCount] at complete ⊢
  induction count generalizing row with
  | zero =>
    simp only [List.range'_zero, List.map_nil, Tiles]
    omega
  | succ count inductionHypothesis =>
    have behind := inductionHypothesis (row + 1) (by omega)
    have reached : min ((row + 1) * (2 * 8)) data.size =
        (ofData data (row * (2 * 8))).last + 1 := by
      simp only [ofData, byteCount, wordCount]
      omega
    rw [reached] at behind
    refine ⟨?_, ?_, behind⟩ <;> simp only [ofData, byteCount, wordCount] <;> omega

/-- The rows into which data is cut tile it: this is what is left from the first row on. -/
theorem tiles_all (data : Array UInt8) : Tiles 0 (all data) data.size := by
  simpa [all, List.range_eq_range'] using tiles_ofData data 0 _ (Nat.zero_add _)

/-- The rows into which data is cut show their bytes. Each of them begins at a multiple of a row's
length that is inside of the data, because rows are counted by rounding up. -/
theorem shows_all (data : Array UInt8) (row : MemoryRow) (member : row ∈ all data) :
    row.Shows data := by
  simp only [all, List.mem_map, List.mem_range] at member
  obtain ⟨index, bound, rfl⟩ := member
  apply shows_ofData
  · simp only [byteCount, wordCount] at bound ⊢
    omega
  · exact Nat.mul_mod_left index byteCount

/-- Rows tile what they tiled when a row is drawn together with the next. Only the border between
the two disappears. -/
theorem tiles_join {row : MemoryRow} {rows : List MemoryRow} {start stop : Nat}
    (tiles : Tiles start (row :: rows) stop) : Tiles start (join row rows) stop := by
  cases rows with
  | nil => exact tiles
  | cons next rest =>
    rw [join]
    split
    · obtain ⟨begins, ordered, follows, nextOrdered, behind⟩ := tiles
      exact ⟨begins, by dsimp only; omega, behind⟩
    · exact tiles

/-- Rows that follow each other show their bytes when two of them are drawn together. Both had to
be rows of zeros, and since the second begins right behind the first, the whole stretch is zero.
-/
theorem shows_join {data : Array UInt8} {row : MemoryRow} {rows : List MemoryRow}
    {start stop : Nat} (tiles : Tiles start (row :: rows) stop)
    (shows : ∀ shown ∈ row :: rows, shown.Shows data) :
    ∀ shown ∈ join row rows, shown.Shows data := by
  cases rows with
  | nil => exact shows
  | cons next rest =>
    rw [join]
    split
    · next zeros =>
      obtain ⟨rowZero, nextZero⟩ := Bool.and_eq_true_iff.mp zeros
      obtain ⟨-, -, follows, -⟩ := tiles
      rw [List.forall_mem_cons, List.forall_mem_cons] at shows
      obtain ⟨rowShows, nextShows, restShow⟩ := shows
      have drawn : ZeroFrom data row.first next.last :=
        zeroFrom_join (rowShows.isZero_iff.mp rowZero) (follows ▸ nextShows.isZero_iff.mp nextZero)
      refine List.forall_mem_cons.mpr ⟨⟨rowShows.inside, ?_, ?_⟩, restShow⟩
      · exact iff_of_true nextZero drawn
      · intro nonzero
        exact absurd nextZero (Bool.eq_false_iff.mp nonzero)
    · exact shows

/-- Rows tile what they tiled, and show their bytes, when neighbouring rows of zeros are drawn
together. Both are proved at once: that a drawn row shows its bytes needs that the rows behind it
tile. -/
theorem tiles_merge {data : Array UInt8} {rows : List MemoryRow} {start stop : Nat}
    (tiles : Tiles start rows stop) (shows : ∀ row ∈ rows, row.Shows data) :
    Tiles start (merge rows) stop ∧ ∀ row ∈ merge rows, row.Shows data := by
  induction rows generalizing start with
  | nil => exact ⟨tiles, shows⟩
  | cons row rest inductionHypothesis =>
    obtain ⟨begins, ordered, behind⟩ := tiles
    obtain ⟨rowShows, restShow⟩ := List.forall_mem_cons.mp shows
    obtain ⟨mergedTiles, mergedShow⟩ := inductionHypothesis behind restShow
    have whole : Tiles start (row :: merge rest) stop := ⟨begins, ordered, mergedTiles⟩
    exact ⟨tiles_join whole, shows_join whole (List.forall_mem_cons.mpr ⟨rowShows, mergedShow⟩)⟩

end MemoryRow

open MemoryRow

/-- The rows under which data is shown tile it, because the rows into which it is cut do and
drawing them together keeps it. -/
theorem tiles_memoryRows (data : Array UInt8) : Tiles 0 (memoryRows data) data.size :=
  (tiles_merge (tiles_all data) (shows_all data)).1

/-- The rows under which data is shown show their bytes, by the same two steps. -/
theorem shows_memoryRows (data : Array UInt8) (row : MemoryRow) (member : row ∈ memoryRows data) :
    row.Shows data :=
  (tiles_merge (tiles_all data) (shows_all data)).2 row member

/-- A line shows the filler exactly if its row is one of zeros, since no number holds a full stop.
The filler can therefore be told from words without knowing how wide they are. -/
theorem memoryLine_eq_filler_iff (row : MemoryRow) :
    memoryLine row = rowLine row.first row.last zeroFiller ↔ row.isZero = true := by
  rw [memoryLine, rowLine, rowLine, String.append_right_inj]
  cases zero : row.isZero with
  | true => simp
  | false =>
    simp only [Bool.false_eq_true, if_false, iff_false]
    intro filled
    have stop : '.' ∈ (numbers row.words).toList := by simp [filled, zeroFiller]
    exact absurd (mem_of_mem_numbers row.words _ stop) (by decide)

end Chip8.Dump
