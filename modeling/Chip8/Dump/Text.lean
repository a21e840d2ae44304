import Chip8.Dump.MemoryRow
import Chip8.Instruction.Assembly
import Chip8.Machine.Basic

/-!
# Text of a dump

The whole state of a machine as lines of text. Numbers are hexadecimal with at
least four digits. Tables are indented by a tab, and each of their rows begins
with the span of indices that it shows.

Only the number of memory rows depends on the state. Every other part of a dump
has a fixed number of lines, so each line has its place counted from the top or
from the bottom.
-/

namespace Chip8

namespace Dump

/-- Entries in a row of a table. -/
abbrev entryCount : Nat := 8

/-- A number as a dump shows it: hexadecimal, with at least four digits. -/
def number (value : Nat) : String := Numeral.hex 4 value

/-- The span of indices at the head of a row, the last of them included. -/
def span (first last : Nat) : String := number first ++ " - " ++ number last ++ " :"

/-- A line of a table: an indented span with entries behind it. -/
def rowLine (first last : Nat) (entries : String) : String :=
  "\t" ++ span first last ++ entries

/-- Numbers, each behind a space. -/
def numbers (values : List Nat) : String :=
  String.join (values.map fun value => " " ++ number value)

/-- A condition in words, as wide as a number, so that the columns of a table stand in line. -/
def paddedFlag (flag : Bool) : String := if flag then "true  " else "false "

/-- A condition in words. -/
def flagWord (flag : Bool) : String := if flag then "true" else "false"

/-- Conditions, each behind a space and padded but for the last. The last is left as it is, so
that no line ends in a space. -/
def flags : List Bool → String
  | [] => ""
  | [last] => " " ++ flagWord last
  | flag :: rest => " " ++ paddedFlag flag ++ flags rest

/-- The lines of a table of sixteen entries, in two rows. How entries are written is left to the
table. -/
def tableLines {α : Type} (entries : List α) (text : List α → String) : List String :=
  [rowLine 0 (entryCount - 1) (text (entries.take entryCount)),
   rowLine entryCount (2 * entryCount - 1) (text (entries.drop entryCount))]

/-- What stands for the words of a row of zeros; as wide as they are. It shows the first and the
last word, and dots between them. -/
def zeroFiller : String :=
  let gap := String.ofList (List.replicate 20 ' ')
  " " ++ number 0 ++ gap ++ "..." ++ gap ++ number 0

/-- The line of a row of memory. A row of zeros is shown by the filler, whether or not it stands
for several. -/
def memoryLine (row : MemoryRow) : String :=
  rowLine row.first row.last (if row.isZero then zeroFiller else numbers row.words)

/-- The meaning of a machine's latest word, or that it has none. The machine's own policy decides
which words have one. -/
def meaning (machine : Machine) : String :=
  match machine.decoded with
  | .ok (some instruction) => instruction.text
  | .ok none => "invalid"
  | .error _ => "invalid"

/-- A status in words. It shows the register of a wait and the whole wording of a fault. -/
def statusText : Status → String
  | .running => "running"
  | .awaitingKey register => "awaiting key for V" ++ Numeral.bareHex register
  | .halted fault => "halted (" ++ fault.message ++ ")"

/-- The lines of a dump. Of everything that a machine has, the configuration and the entropy are
not shown. -/
def lines (machine : Machine) : List String :=
  ["Program Counter: " ++ number machine.counter.toNat,
   "Opcode: " ++ number machine.opcode.toNat ++ " (" ++ meaning machine ++ ")",
   "Index Register: " ++ number machine.index.toNat,
   "State: " ++ statusText machine.status,
   "Registers:"] ++
  tableLines ((machine.registers.upTo Registers.flag).map UInt8.toNat) numbers ++
  ["Stack:" ++ numbers (machine.stack.toList.map UInt16.toNat),
   "Delay Timer: " ++ number machine.delay.value.toNat,
   "Sound Timer: " ++ number machine.sound.value.toNat,
   "Keyboard:"] ++
  tableLines machine.keypad.toList flags ++
  ["Memory:"] ++
  (memoryRows machine.memory.bytes).map memoryLine ++
  ["Screen:"] ++
  machine.screen.lines.map ("\t" ++ ·)

end Dump

/-- The dump of a machine, without a line end behind its last line. -/
def Machine.dump (machine : Machine) : String := String.intercalate "\n" (Dump.lines machine)

end Chip8
