import Chip8.Dump.Text
import Chip8.Proofs.Machine.Randomness

/-!
# Renewal

Of everything that a machine has been through, a reset keeps how far its entropy was
used, and nothing else. A machine that is reset is therefore the machine that is switched
on with the same configuration, whatever program it ran, however it stopped and whatever
its host asked of it.

What the entropy did before cannot be seen either, only the bytes to come can. So a reset
machine and a new one that will take the same bytes go on alike for ever.
-/

namespace Chip8

namespace Machine

/-- The machines agree in every component but the entropy, and their entropies will deliver the
same bytes. How many bytes each has delivered may differ; nothing can ask for it. -/
structure Interchangeable (left right : Machine) : Prop where
  entropy : left.entropy.Alike right.entropy
  others : left = right.setEntropy left.entropy

/-- A machine may stand for itself. -/
theorem Interchangeable.refl (machine : Machine) : machine.Interchangeable machine :=
  ⟨fun _ => rfl, rfl⟩

/-- A dump does not show the entropy, so interchangeable machines have the same dump. -/
theorem Interchangeable.dump_eq {left right : Machine} (same : left.Interchangeable right) :
    left.dump = right.dump := by
  rw [same.others]
  rfl

/-- Interchangeable machines answer and report the same to every command, and they stay
interchangeable. A command that replaces the entropy makes them equal; any other takes as many
bytes from both, and the bytes to come remain the same. -/
theorem obey_of_interchangeable (left right : Machine) (same : left.Interchangeable right)
    (command : Command) :
    (left.obey command).reply = (right.obey command).reply ∧
      (left.obey command).events = (right.obey command).events ∧
      (left.obey command).machine.Interchangeable (right.obey command).machine := by
  obtain ⟨alike, others⟩ := same
  generalize left.entropy = entropy at *
  subst others
  by_cases replaced : ∃ fresh, command = .setEntropy fresh
  · obtain ⟨fresh, rfl⟩ := replaced
    exact ⟨rfl, rfl, .refl _⟩
  · have unreplaced : ∀ fresh, command ≠ .setEntropy fresh := not_exists.mp replaced
    obtain ⟨reply, events, left⟩ :=
      obey_setEntropy right entropy command unreplaced fun _ => alike 0
    refine ⟨reply, events, ?_, ?_⟩
    · rw [left, entropy_obey right command unreplaced]
      exact alike.advance _
    · rw [left]
      rfl

/-- Behind every history a reset gives the machine that is switched on with the same
configuration, but that it takes its bytes from where the history left off. A second reset changes
nothing. And a new machine that is given entropy with the same bytes to come cannot be told from
it: under every program and every history behind that, both answer and report the same, and
throughout they are interchangeable and show the same dump.

A reset asks nothing of the machine but its configuration and its entropy, and no history changes
the configuration. The rest is a simulation: the renewed and the new machine start
interchangeable, each command keeps them so, and all that a host can see of them is then the same.
The entropies need only be alike, since a host may hand over the bytes to come as entropy of its
own. -/
theorem reset_starts_anew (config : Config) (entropy : Entropy) (history : List Command) :
    let reached := (powerOn config entropy).after history
    let renewed := (reached.obey .reset).machine
    renewed.entropy = reached.entropy ∧
      (∀ fresh, renewed.setEntropy fresh = powerOn config fresh) ∧
      (renewed.obey .reset).machine = renewed ∧
      ∀ fresh given : Entropy, given.Alike reached.entropy →
        let started := ((powerOn config fresh).obey (.setEntropy given)).machine
        ∀ (program : List UInt8) (further : List Command),
          let later := .load program :: further
          started.replies later = renewed.replies later ∧
            started.reports later = renewed.reports later ∧
            ∀ stretch, stretch <+: later →
              (started.after stretch).Interchangeable (renewed.after stretch) ∧
                (started.after stretch).dump = (renewed.after stretch).dump := by
  intro reached renewed
  have anew : renewed = powerOn config reached.entropy := by
    have kept : reached.config = config := config_after (powerOn config entropy) history
    rw [← kept]
    exact reset_eq_powerOn reached
  refine ⟨rfl, fun fresh => ?_, rfl, fun fresh given alike => ?_⟩
  · rw [anew]
    rfl
  · intro started program further later
    have same : started.Interchangeable renewed := by
      rw [anew]
      exact ⟨alike, rfl⟩
    obtain ⟨replies, reports, throughout⟩ :=
      exchanges_simulation (fun one another => another.Interchangeable one) renewed started later
        (fun exchange _ other related => obey_of_interchangeable other _ related exchange.command)
        same
    exact ⟨replies, reports, fun stretch part =>
      ⟨throughout stretch part, (throughout stretch part).dump_eq⟩⟩

/-- A program that takes a random byte, overwrites glyphs, draws, starts a tone, calls and comes
to an unknown word, with a key pressed on the way. -/
def rampage : List Command :=
  [.load [0xC1, 0xFF, 0xA0, 0x50, 0xF2, 0x55, 0xD0, 0x15, 0xF1, 0x18, 0x22, 0x0C, 0xFF, 0xFF],
    .step, .step, .setKey 3 true, .step, .step, .step, .step, .step]

/-- Unknown words are refused, and the machine counts its timers down itself. -/
def strictClock : Config := { cadence := .instruction, unknown := .halt }

/-- What the program leaves of such a machine. -/
def wreck : Machine := (powerOn strictClock (dice 0x11)).after rampage

/-- What is left of the dice behind their first byte, as dice of their own. -/
def remainingDice : Entropy := ⟨fun position => if position = 0 then 0xC3 else 0x11, 0⟩

/-- The halted machine is renewed, and its next program gets the second byte. A new machine
with the remaining dice answers it alike and shows the same dump behind it. -/
theorem wreck_renewed :
    let renewed := (wreck.obey .reset).machine
    let started := ((powerOn strictClock (dice 0x99)).obey (.setEntropy remainingDice)).machine
    let later : List Command := [.load [0xC2, 0xFF], .step]
    wreck.status = .halted (.opcode (.unsupported 0xFFFF)) ∧ wreck.memory.read 0x50 = 0 ∧
      wreck.screen.isLit 1 27 = true ∧ wreck.stack.depth = 1 ∧ wreck.keypad.isPressed 3 = true ∧
      renewed.setEntropy (dice 0x99) = powerOn strictClock (dice 0x99) ∧
      remainingDice.Alike wreck.entropy ∧
      (renewed.after later).registers.read 2 = 0xC3 ∧
      started.replies later = renewed.replies later ∧
      (started.after later).dump = (renewed.after later).dump := by
  intro renewed started later
  obtain ⟨stopped, erased, lit, depth, pressed, drawn, second⟩ :
      wreck.status = .halted (.opcode (.unsupported 0xFFFF)) ∧ wreck.memory.read 0x50 = 0 ∧
        wreck.screen.isLit 1 27 = true ∧ wreck.stack.depth = 1 ∧ wreck.keypad.isPressed 3 = true ∧
        (powerOn strictClock (dice 0x11)).bytesDrawn rampage = 1 ∧
        (wreck.reset.after [.load [0xC2, 0xFF], .step]).registers.read 2 = 0xC3 := by
    decide +kernel
  have gone : wreck.entropy = (dice 0x11).advance 1 := by
    rw [wreck, entropy_after _ rampage (by simp [rampage]), drawn]
    rfl
  have alike : remainingDice.Alike wreck.entropy := by
    intro ahead
    rw [gone, Entropy.upcoming_advance]
    cases ahead with
    | zero => rfl
    | succ ahead => simp [Entropy.upcoming, remainingDice, dice, Nat.add_comm 1]
  obtain ⟨_, anew, _, alone⟩ := reset_starts_anew strictClock (dice 0x11) rampage
  obtain ⟨replies, _, throughout⟩ := alone (dice 0x99) remainingDice alike [0xC2, 0xFF] [.step]
  exact ⟨stopped, erased, lit, depth, pressed, anew _, alike, second, replies,
    (throughout later List.prefix_rfl).2⟩

end Machine

end Chip8
