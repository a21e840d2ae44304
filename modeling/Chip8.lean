import Chip8.Numeral
import Chip8.Fault
import Chip8.Instruction.Opcode
import Chip8.Instruction.Basic
import Chip8.Instruction.Decode
import Chip8.Instruction.Assembly
import Chip8.Flow
import Chip8.Memory
import Chip8.Glyphs
import Chip8.Registers
import Chip8.CallStack
import Chip8.Countdown
import Chip8.Entropy
import Chip8.Screen
import Chip8.Sprite
import Chip8.Keypad.Basic
import Chip8.Keypad.Layout
import Chip8.Keypad.Shared
import Chip8.Journal
import Chip8.Machine.Basic
import Chip8.Machine.Effect
import Chip8.Machine.Step
import Chip8.Machine.Command
import Chip8.Dump.MemoryRow
import Chip8.Dump.Text
import Chip8.Frame
import Chip8.Console
import Chip8.Playback
import Chip8.Worker
import Chip8.Proofs.Instruction.Encoding
import Chip8.Proofs.Instruction.Fields
import Chip8.Proofs.Machine.Execution
import Chip8.Proofs.Machine.Transition
import Chip8.Proofs.Machine.Bounds
import Chip8.Proofs.Machine.GuardedAccess
import Chip8.Proofs.Machine.GuardedStep
import Chip8.Proofs.Machine.Failure
import Chip8.Proofs.Machine.KeyWait
import Chip8.Proofs.Machine.Burst
import Chip8.Proofs.Machine.Exchange
import Chip8.Proofs.Machine.Leniency
import Chip8.Proofs.Machine.Calls
import Chip8.Proofs.Machine.Latch
import Chip8.Proofs.Console.Picture
import Chip8.Proofs.Console.Patience
import Chip8.Proofs.Machine.Vigil
import Chip8.Proofs.Machine.Dependence
import Chip8.Proofs.Machine.Randomness
import Chip8.Proofs.Machine.Footprint
import Chip8.Proofs.Machine.Seclusion
import Chip8.Proofs.Machine.Success
import Chip8.Proofs.Machine.Timers
import Chip8.Proofs.Machine.Writes
import Chip8.Proofs.Machine.Itinerary
import Chip8.Proofs.Console.Turn
import Chip8.Proofs.Console.Cutoff
import Chip8.Proofs.Console.Timekeeping
import Chip8.Proofs.Machine.Drawing
import Chip8.Proofs.Machine.Renewal
import Chip8.Proofs.Text.Tokens
import Chip8.Proofs.Dump.Rows
import Chip8.Proofs.Text.Wording
import Chip8.Proofs.Dump.Legible
import Chip8.Proofs.Machine.Transfers
import Chip8.Proofs.Machine.Arithmetic
import Chip8.Proofs.Machine.Loading
import Chip8.Proofs.Machine.Strokes
import Chip8.Proofs.Instruction.Notation
import Chip8.Proofs.Keypad.Families
import Chip8.Proofs.Screen.History
