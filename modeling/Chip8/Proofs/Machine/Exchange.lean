import Chip8.Machine.Command

/-!
# Exchanges

A history told command by command, each with the machine that it was given to.
What a machine answered and what it reported on the way can then be read off the
exchanges one at a time.
-/

namespace Chip8

/-- A command and the machine that it is given to. What the machine makes of it is determined by
both. -/
structure Exchange where
  machine : Machine
  command : Command

/-- What the machine makes of the command. -/
def Exchange.response (exchange : Exchange) : Response := exchange.machine.obey exchange.command

namespace Machine

/-- The exchanges of a history, in order, each with the machine that the ones before it have left.
-/
def exchanges (machine : Machine) : List Command → List Exchange
  | [] => []
  | command :: rest => ⟨machine, command⟩ :: (machine.obey command).machine.exchanges rest

/-- The answers to the commands of a history, in order. Every command has one. -/
def replies (machine : Machine) (history : List Command) : List Reply :=
  (machine.exchanges history).map (·.response.reply)

/-- Everything that is reported during a history, in order. A command may report nothing or
several things. -/
def reports (machine : Machine) (history : List Command) : List Event :=
  (machine.exchanges history).flatMap (·.response.events)

/-- The exchanges of a history that goes on are followed by those of its continuation, which
begins with the machine that the first part has left. -/
theorem exchanges_append (machine : Machine) (earlier later : List Command) :
    machine.exchanges (earlier ++ later) =
      machine.exchanges earlier ++ (machine.after earlier).exchanges later := by
  induction earlier generalizing machine with
  | nil => rfl
  | cons command rest inductionHypothesis =>
    simp only [List.cons_append, exchanges, after_cons, inductionHypothesis]

/-- A command that is given belongs to the history, so what is asked of every command is true of
it. -/
theorem command_mem_of_mem_exchanges (machine : Machine) (history : List Command)
    (exchange : Exchange) (given : exchange ∈ machine.exchanges history) :
    exchange.command ∈ history := by
  induction history generalizing machine with
  | nil => contradiction
  | cons command rest inductionHypothesis =>
    rcases List.mem_cons.mp given with rfl | later
    · exact List.mem_cons_self
    · exact List.mem_cons_of_mem command (inductionHypothesis _ later)

/-- What holds of a machine and survives every exchange of a history holds whenever the history
gives a command, and behind the history. Unlike an invariant of all commands, it only has to
survive the exchanges that really occur. -/
theorem exchanges_induction (Invariant : Machine → Prop) (machine : Machine)
    (history : List Command)
    (kept : ∀ exchange ∈ machine.exchanges history, Invariant exchange.machine →
      Invariant exchange.response.machine)
    (holds : Invariant machine) :
    (∀ exchange ∈ machine.exchanges history, Invariant exchange.machine) ∧
      Invariant (machine.after history) := by
  induction history generalizing machine with
  | nil => exact ⟨fun _ member => absurd member List.not_mem_nil, holds⟩
  | cons command rest inductionHypothesis =>
    obtain ⟨first, later⟩ := List.forall_mem_cons.mp kept
    obtain ⟨given, reached⟩ := inductionHypothesis _ later (first holds)
    exact ⟨List.forall_mem_cons.mpr ⟨holds, given⟩, reached⟩

/-- A first command is answered first. -/
theorem replies_cons (machine : Machine) (command : Command) (rest : List Command) :
    machine.replies (command :: rest) =
      (machine.obey command).reply :: (machine.obey command).machine.replies rest := rfl

/-- What a first command reports stands first. -/
theorem reports_cons (machine : Machine) (command : Command) (rest : List Command) :
    machine.reports (command :: rest) =
      (machine.obey command).events ++ (machine.obey command).machine.reports rest := by
  simp only [reports, exchanges, List.flatMap_cons, Exchange.response]

/-- Machines in a relation under which every exchange of a history is answered and reported alike,
and which the exchange keeps, cannot be told apart by the history. The relation is asked for only
along the exchanges of one of the machines. Every law about two machines that get the same
commands is proved by choosing a relation here. -/
theorem exchanges_simulation (Related : Machine → Machine → Prop) (left right : Machine)
    (history : List Command)
    (kept : ∀ exchange ∈ left.exchanges history, ∀ other, Related exchange.machine other →
      (other.obey exchange.command).reply = exchange.response.reply ∧
        (other.obey exchange.command).events = exchange.response.events ∧
        Related exchange.response.machine (other.obey exchange.command).machine)
    (related : Related left right) :
    right.replies history = left.replies history ∧
      right.reports history = left.reports history ∧
      ∀ stretch, stretch <+: history → Related (left.after stretch) (right.after stretch) := by
  induction history generalizing left right with
  | nil =>
    refine ⟨rfl, rfl, fun stretch part => ?_⟩
    cases List.prefix_nil.mp part
    exact related
  | cons command rest inductionHypothesis =>
    obtain ⟨first, later⟩ := List.forall_mem_cons.mp kept
    obtain ⟨reply, events, next⟩ := first right related
    obtain ⟨replies, reports, throughout⟩ := inductionHypothesis _ _ later next
    simp only [Exchange.response] at reply events
    rw [replies_cons, replies_cons, reports_cons, reports_cons, reply, events, replies, reports]
    refine ⟨rfl, rfl, fun stretch part => ?_⟩
    cases stretch with
    | nil => exact related
    | cons given further =>
      obtain ⟨rfl, within⟩ := List.cons_prefix_cons.mp part
      exact throughout further within

end Machine

end Chip8
