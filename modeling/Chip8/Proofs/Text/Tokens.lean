import Chip8.Dump.Text
import Mathlib.Algebra.Group.Nat.Defs

/-!
# Tokens

A token of a text ends at the first character that it cannot hold. Numbers are written with
few characters, so a number in front of a text is found again whatever its width, and so is
every number of a list of them, however many there are.
-/

namespace Chip8

/-- Lists that begin with elements other than a separator, and go on with a separator if they go
on at all, agree in that beginning and in what follows it. If one beginning were longer, its next
element would stand where the other list has its separator. The induction follows one beginning
and takes the other apart beside it. -/
theorem beginning_unique {α : Type} {separator : α} {left right rest other : List α}
    (leftFree : separator ∉ left) (rightFree : separator ∉ right)
    (restEnds : ∀ next ∈ rest.head?, next = separator)
    (otherEnds : ∀ next ∈ other.head?, next = separator)
    (same : left ++ rest = right ++ other) : left = right ∧ rest = other := by
  induction left generalizing right with
  | nil =>
    cases right with
    | nil => exact ⟨rfl, same⟩
    | cons first remaining =>
      rw [List.nil_append] at same
      simp [restEnds first (by simp [same])] at rightFree
  | cons first remaining inductionHypothesis =>
    cases right with
    | nil =>
      rw [List.nil_append] at same
      simp [otherEnds first (by simp [← same])] at leftFree
    | cons second others =>
      rw [List.cons_append, List.cons_append, List.cons.injEq] at same
      rw [List.mem_cons, not_or] at leftFree rightFree
      obtain ⟨rfl, behind⟩ := same
      obtain ⟨rfl, followed⟩ := inductionHypothesis leftFree.2 rightFree.2 behind
      exact ⟨rfl, followed⟩

/-- A text goes on behind a token: it is at its end or at a character that ends the token. Nothing
is asked of what comes later. -/
def GoesOnWith (separator : Char) (text : String) : Prop :=
  ∀ char ∈ text.toList.head?, char = separator

/-- Texts that begin with a token each, and go on with what ends it, have that token in common and
what follows it. No width of the token is needed, so numbers of any size can be quoted in a text
and found again. -/
theorem token_unique {separator : Char} {left right rest other : String}
    (leftToken : separator ∉ left.toList) (rightToken : separator ∉ right.toList)
    (restEnds : GoesOnWith separator rest) (otherEnds : GoesOnWith separator other)
    (same : left ++ rest = right ++ other) : left = right ∧ rest = other := by
  have characters : left.toList ++ rest.toList = right.toList ++ other.toList := by
    simpa using congrArg String.toList same
  obtain ⟨tokens, behind⟩ := beginning_unique leftToken rightToken restEnds otherEnds characters
  exact ⟨String.toList_inj.mp tokens, String.toList_inj.mp behind⟩

/-- Parts that are put together with a mark between them are the first part and the others, each
behind its mark. In this form all parts but the first look alike, and a list of them is taken
apart from the left. -/
theorem intercalate_cons (mark part : String) (rest : List String) :
    String.intercalate mark (part :: rest) = part ++ String.join (rest.map (mark ++ ·)) := by
  induction rest generalizing part with
  | nil => simp
  | cons next later inductionHypothesis =>
    rw [String.intercalate_cons_cons, inductionHypothesis, List.map_cons, String.join_cons,
      String.append_assoc, String.append_assoc]

section Marked

variable {separator : Char} {mark : String} (marks : mark.toList.head? = some separator)

include marks

/-- Marked parts are nothing, or they begin with what the mark begins with. So whatever token
stands in front of them ends there. -/
theorem goesOnWith_join (parts : List String) :
    GoesOnWith separator (String.join (parts.map (mark ++ ·))) := by
  cases parts with
  | nil => simp [GoesOnWith]
  | cons part rest =>
    intro char first
    simpa [List.head?_append, marks, eq_comm] using first

/-- Marked tokens are told apart, and so is how many there are. The separator is only the first
character of the mark: that no token holds it ends each token at the next mark. An empty mark
would hide empty tokens, but it has no first character. -/
theorem join_injective (left right : List String)
    (leftTokens : ∀ part ∈ left, separator ∉ part.toList)
    (rightTokens : ∀ part ∈ right, separator ∉ part.toList)
    (same : String.join (left.map (mark ++ ·)) = String.join (right.map (mark ++ ·))) :
    left = right := by
  have filled : mark ≠ "" := by
    rintro rfl
    simp at marks
  induction left generalizing right with
  | nil =>
    cases right with
    | nil => rfl
    | cons other others => simp [filled] at same
  | cons part rest inductionHypothesis =>
    cases right with
    | nil => simp [filled] at same
    | cons other others =>
      obtain ⟨token, tokens⟩ := List.forall_mem_cons.mp leftTokens
      obtain ⟨otherToken, otherTokens⟩ := List.forall_mem_cons.mp rightTokens
      rw [List.map_cons, List.map_cons, String.join_cons, String.join_cons, String.append_assoc,
        String.append_assoc, String.append_right_inj] at same
      obtain ⟨rfl, behind⟩ := token_unique token otherToken (goesOnWith_join marks rest)
        (goesOnWith_join marks others) same
      rw [inductionHypothesis others tokens otherTokens behind]

/-- Tokens with a mark between them are told apart, and so is how many there are. Both lists have
a first token, since no tokens and one empty token would be put together alike. -/
theorem intercalate_injective (left right : String) (rest others : List String)
    (leftTokens : ∀ part ∈ left :: rest, separator ∉ part.toList)
    (rightTokens : ∀ part ∈ right :: others, separator ∉ part.toList)
    (same : String.intercalate mark (left :: rest) = String.intercalate mark (right :: others)) :
    left :: rest = right :: others := by
  obtain ⟨token, tokens⟩ := List.forall_mem_cons.mp leftTokens
  obtain ⟨otherToken, otherTokens⟩ := List.forall_mem_cons.mp rightTokens
  rw [intercalate_cons, intercalate_cons] at same
  obtain ⟨rfl, behind⟩ := token_unique token otherToken (goesOnWith_join marks rest)
    (goesOnWith_join marks others) same
  rw [join_injective marks rest others tokens otherTokens behind]

end Marked

namespace Numeral

/-- The characters of digits, in any base up to sixteen. -/
def symbols : List Char := "0123456789ABCDEF".toList

/-- A digit is written with one of its characters. Above fifteen letters go on behind `F`, hence
the bound. -/
theorem digitChar_mem_symbols (value : Nat) (inside : value < 16) :
    digitChar value ∈ symbols := by
  have checked : ∀ digit : Fin 16, digitChar digit.val ∈ symbols := by decide
  exact checked ⟨value, inside⟩

/-- A number is written with the digits of its base. The induction follows how the digits are
made, the last one first: it is a remainder, and the others are those of the quotient. -/
theorem exists_digit_of_mem_digits (base value : Nat) (lower : 2 ≤ base) (char : Char)
    (member : char ∈ digits base value) : ∃ digit < base, char = digitChar digit := by
  fun_induction digits base value with
  | case1 value last => exact ⟨value, by omega, List.mem_singleton.mp member⟩
  | case2 value more inductionHypothesis =>
    rcases List.mem_append.mp member with earlier | last
    · exact inductionHypothesis earlier
    · exact ⟨value % base, Nat.mod_lt _ (by omega), List.mem_singleton.mp last⟩

/-- A number is written with characters of digits, which are few. What is not among them, such as
a space, a comma or a line end, can therefore end a number. -/
theorem mem_symbols_of_mem_digits (base value : Nat) (lower : 2 ≤ base) (upper : base ≤ 16)
    (char : Char) (member : char ∈ digits base value) : char ∈ symbols := by
  obtain ⟨digit, below, rfl⟩ := exists_digit_of_mem_digits base value lower char member
  exact digitChar_mem_symbols digit (Nat.lt_of_lt_of_le below upper)

/-- A decimal number has no letters, so it is told apart from everything that begins with one. -/
theorem isDigit_of_mem_decimal (value : Nat) (char : Char)
    (member : char ∈ (decimal value).toList) : char.isDigit = true := by
  have checked : ∀ digit : Fin 10, (digitChar digit.val).isDigit = true := by decide
  rw [decimal, String.toList_ofList] at member
  obtain ⟨digit, below, rfl⟩ := exists_digit_of_mem_digits 10 value (by decide) char member
  exact checked ⟨digit, below⟩

/-- A decimal number is written with characters of digits; in base ten only with the first of
them. -/
theorem mem_symbols_of_mem_decimal (value : Nat) (char : Char)
    (member : char ∈ (decimal value).toList) : char ∈ symbols := by
  rw [decimal, String.toList_ofList] at member
  exact mem_symbols_of_mem_digits 10 value (by decide) (by decide) char member

/-- A bare hexadecimal number is written with characters of digits, and with nothing in front of
them. -/
theorem mem_symbols_of_mem_bareHex (value : Nat) (char : Char)
    (member : char ∈ (bareHex value).toList) : char ∈ symbols := by
  rw [bareHex, String.toList_ofList] at member
  exact mem_symbols_of_mem_digits 16 value (by decide) (by decide) char member

/-- A number below a power of the base needs no more digits than the exponent says. The induction
is on the exponent: dividing by the base takes one digit off and one factor from the bound. Zero
has a digit too, so the exponent is positive. -/
theorem length_digits_le (base width value : Nat) (positive : 0 < width)
    (fits : value < base ^ width) : (digits base value).length ≤ width := by
  induction width generalizing value with
  | zero => contradiction
  | succ width inductionHypothesis =>
    rw [digits]
    split
    · exact positive
    · next more =>
      have remaining : 0 < width := by
        apply Nat.pos_of_ne_zero
        rintro rfl
        rw [Nat.pow_one] at fits
        omega
      have shorter := inductionHypothesis (value / base) remaining
        (Nat.div_lt_of_lt_mul (by rwa [Nat.pow_succ, Nat.mul_comm] at fits))
      rw [List.length_append, List.length_singleton]
      omega

/-- A number that fits into its field fills it exactly, because padding never cuts and the digits
are not longer than the field. -/
theorem length_padded (base width value : Nat) (positive : 0 < width)
    (fits : value < base ^ width) : (padded base width value).length = width := by
  have short := length_digits_le base width value positive fits
  simp only [padded, List.leftpad, List.length_append, List.length_replicate]
  omega

/-- The characters of a marked hexadecimal number. -/
def markedSymbols : List Char := 'x' :: symbols

/-- A marked hexadecimal number is written with characters of digits and of its mark: each
character is in the mark, among the zeros of the padding, or a digit. -/
theorem mem_markedSymbols_of_mem_hex (width value : Nat) (char : Char)
    (member : char ∈ (hex width value).toList) : char ∈ markedSymbols := by
  simp only [hex, padded, List.leftpad, String.toList_append, String.toList_ofList,
    List.mem_append, List.mem_replicate] at member
  rcases member with mark | ⟨-, rfl⟩ | digit
  · have either : char = '0' ∨ char = 'x' := by simpa using mark
    rcases either with rfl | rfl <;> decide
  · decide
  · exact List.mem_cons_of_mem _
      (mem_symbols_of_mem_digits 16 value (by decide) (by decide) char digit)

end Numeral

namespace Dump

/-- A list of numbers is written with spaces and with characters of numbers. So a filler, which
holds full stops, is never mistaken for one. -/
theorem mem_of_mem_numbers (values : List Nat) (char : Char)
    (member : char ∈ (numbers values).toList) : char ∈ ' ' :: Numeral.markedSymbols := by
  induction values with
  | nil => simp [numbers] at member
  | cons value rest inductionHypothesis =>
    simp only [numbers, List.map_cons, String.join_cons, String.toList_append,
      List.mem_append] at member
    rcases member with (space | digit) | behind
    · simp_all
    · exact List.mem_cons_of_mem _ (Numeral.mem_markedSymbols_of_mem_hex 4 value char digit)
    · exact inductionHypothesis behind

/-- A number of a dump determines its value, at any width: padding with zeros does not change what
is read. -/
theorem number_injective {left right : Nat} (same : number left = number right) : left = right :=
  Numeral.hex_injective 4 left right same

/-- A number of a dump is a token between spaces. -/
theorem space_not_mem_number (value : Nat) : ' ' ∉ (number value).toList := fun member =>
  absurd (Numeral.mem_markedSymbols_of_mem_hex 4 value _ member) (by decide)

/-- A number is found again in front of a text that goes on with a space. Its width is not known
in advance, because a number with more than four digits is written in full. -/
theorem number_unique {left right : Nat} {rest other : String}
    (restEnds : GoesOnWith ' ' rest) (otherEnds : GoesOnWith ' ' other)
    (same : number left ++ rest = number right ++ other) : left = right ∧ rest = other := by
  obtain ⟨numerals, behind⟩ := token_unique (space_not_mem_number left)
    (space_not_mem_number right) restEnds otherEnds same
  exact ⟨number_injective numerals, behind⟩

/-- A list of numbers determines the numbers, and how many there are. Each of them is marked by
the space in front of it, so this is the injectivity of marked tokens. -/
theorem numbers_injective (left right : List Nat) (same : numbers left = numbers right) :
    left = right := by
  have joined (values : List Nat) :
      numbers values = String.join ((values.map number).map (" " ++ ·)) := by
    rw [numbers, List.map_map]
    rfl
  have tokens (values : List Nat) : ∀ part ∈ values.map number, ' ' ∉ part.toList :=
    List.forall_mem_map.mpr fun value _ => space_not_mem_number value
  rw [joined left, joined right] at same
  have texts := join_injective (by decide) _ _ (tokens left) (tokens right) same
  exact (List.map_inj_right fun _ _ => number_injective).mp texts

end Dump

end Chip8
