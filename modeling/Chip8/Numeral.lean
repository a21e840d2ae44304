/-!
# Positional numerals

A natural number is written in a base from two to sixteen, most significant
digit first, with upper-case letters from ten on. There are no leading zeros,
and zero itself is one digit. A width pads with zeros on the left and never
cuts, so a number wider than its field is still written in full.

Reading a numeral back gives the number, at any width. Two numbers with the same
text are therefore equal, which is what every fixed-layout text of this library
rests on.
-/

namespace Chip8.Numeral

/-- The character of a digit value below sixteen. Letters follow upon the digit nine, in upper
case. -/
def digitChar (value : Nat) : Char :=
  if value < 10 then Char.ofNat (48 + value) else Char.ofNat (55 + value)

/-- The digits of a number, most significant first. A base below two has no positional system; its
only numeral is a single digit. Above that a division makes the number smaller, which is why the
recursion ends. -/
def digits (base value : Nat) : List Char :=
  if base < 2 ∨ value < base then [digitChar value]
  else digits base (value / base) ++ [digitChar (value % base)]
termination_by value
decreasing_by exact Nat.div_lt_self (by omega) (by omega)

/-- Digits padded with zeros on the left to at least the given width, and never cut to it. -/
def padded (base width value : Nat) : List Char :=
  (digits base value).leftpad width '0'

/-- Decimal text without padding. -/
def decimal (value : Nat) : String := String.ofList (digits 10 value)

/-- Hexadecimal digits without a mark and without padding. -/
def bareHex (value : Nat) : String := String.ofList (digits 16 value)

/-- Hexadecimal text marked by a lower-case `0x`, with at least the given number
of digits behind the mark. -/
def hex (width value : Nat) : String := "0x" ++ String.ofList (padded 16 width value)

/-- The value of a digit character; the inverse of `digitChar` below sixteen. -/
def digitValue (char : Char) : Nat :=
  if char.toNat < 58 then char.toNat - 48 else char.toNat - 55

/-- The number that a list of digits denotes, read from the left. -/
def valueOf (base : Nat) (numeral : List Char) : Nat :=
  numeral.foldl (fun value char => value * base + digitValue char) 0

/-- Every digit is read back as its value. There are sixteen of them to check. -/
theorem digitValue_digitChar (value : Nat) (inside : value < 16) :
    digitValue (digitChar value) = value := by
  have checked : ∀ digit : Fin 16, digitValue (digitChar digit.val) = digit.val := by decide
  exact checked ⟨value, inside⟩

/-- A numeral extended by one digit shifts the number and adds the digit. Digits are written in
this order, the last one last. -/
theorem valueOf_concat (base : Nat) (numeral : List Char) (char : Char) :
    valueOf base (numeral ++ [char]) = valueOf base numeral * base + digitValue char := by
  simp [valueOf]

/-- Reading the digits of a number gives the number. The induction follows the writing: the last
digit is the remainder, and those before it are the digits of the quotient. The base is at most
sixteen because there are no characters for more digits. -/
theorem valueOf_digits (base value : Nat) (lower : 2 ≤ base) (upper : base ≤ 16) :
    valueOf base (digits base value) = value := by
  fun_induction digits base value with
  | case1 value last =>
    have below : value < base := by omega
    simp [valueOf, digitValue_digitChar value (by omega)]
  | case2 value more inductionHypothesis =>
    have below : value % base < base := Nat.mod_lt _ (by omega)
    rw [valueOf_concat, inductionHypothesis, digitValue_digitChar _ (by omega)]
    exact Nat.div_add_mod' value base

/-- Leading zeros do not change the number, so a padded numeral is read back as well. -/
theorem valueOf_padded (base width value : Nat) (lower : 2 ≤ base) (upper : base ≤ 16) :
    valueOf base (padded base width value) = value := by
  have zeros (count : Nat) (numeral : List Char) :
      valueOf base (List.replicate count '0' ++ numeral) = valueOf base numeral := by
    induction count with
    | zero => rfl
    | succ count inductionHypothesis =>
      simpa [valueOf, List.replicate_succ, digitValue] using inductionHypothesis
  rw [padded, List.leftpad, zeros, valueOf_digits base value lower upper]

/-- The padded form has at least the requested width; it has more if the number needs it. -/
theorem width_le_length_padded (base width value : Nat) :
    width ≤ (padded base width value).length := by
  simp only [padded, List.leftpad, List.length_append, List.length_replicate]
  omega

/-- Hexadecimal text determines its number, at any width, because the number can be read back from
behind the mark. -/
theorem hex_injective (width left right : Nat) (same : hex width left = hex width right) :
    left = right := by
  have numerals : padded 16 width left = padded 16 width right := by
    simpa [hex] using congrArg String.toList same
  rw [← valueOf_padded 16 width left (by decide) (by decide), numerals,
    valueOf_padded 16 width right (by decide) (by decide)]

/-- Hexadecimal digits without a mark determine their number, for the same reason. -/
theorem bareHex_injective (left right : Nat) (same : bareHex left = bareHex right) :
    left = right := by
  have numerals : digits 16 left = digits 16 right := by
    simpa [bareHex] using congrArg String.toList same
  rw [← valueOf_digits 16 left (by decide) (by decide), numerals,
    valueOf_digits 16 right (by decide) (by decide)]

/-- Decimal text determines its number, for the same reason in another base. -/
theorem decimal_injective (left right : Nat) (same : decimal left = decimal right) :
    left = right := by
  have numerals : digits 10 left = digits 10 right := by
    simpa [decimal] using congrArg String.toList same
  rw [← valueOf_digits 10 left (by decide) (by decide), numerals,
    valueOf_digits 10 right (by decide) (by decide)]

example : hex 4 0x200 = "0x0200" ∧ hex 4 0x12345 = "0x12345" ∧ hex 2 0 = "0x00" := by
  decide +kernel

example : decimal 4096 = "4096" ∧ decimal 0 = "0" ∧ bareHex 15 = "F" := by
  decide +kernel

end Chip8.Numeral
