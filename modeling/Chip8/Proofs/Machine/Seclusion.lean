import Chip8.Proofs.Machine.Randomness

/-!
# What the host reaches

Between two steps a host counts the timers down and moves the keys, and the cadence
says whether the machine counts the timers down itself. None of this reaches the rest of
a machine but through the four instructions that ask for it: the one that reads the
delay timer, the two that skip on a key and the wait for a key.

A history without its counting and its keys is its script. Two machines that differ in
nothing but timers, keys and cadence, and that follow the same script, are answered
alike and differ in nothing else behind each request of it, as long as they meet none of
these instructions. The sound timer is read by no instruction at all, so it makes no
difference to anything.
-/

namespace Chip8

/-- The requests of a history other than the host's counting and its keys. Two hosts follow the
same script if they ask for the same steps, loads, resets and entropies in the same order. -/
def script (history : List Command) : List Command :=
  history.filter fun command => !command.isAmbient

namespace Machine

/-- The machine without what the host moves on its own: with timers at zero, keys
released and the host's cadence. -/
def secluded (machine : Machine) : Machine :=
  { machine with
    config := { machine.config with cadence := .host }
    delay := .zero
    sound := .zero
    keypad := .released }

/-- The next step asks for the delay timer or for the keys. It is judged by the instruction that
the machine comes to; a machine that comes to none asks for nothing. -/
def sensesHost (machine : Machine) : Bool :=
  machine.instruction?.any fun instruction => instruction.readsDelay || instruction.readsKeys

/-- The exchanges of a history that belong to its script. -/
def scripted (machine : Machine) (history : List Command) : List Exchange :=
  (machine.exchanges history).filter fun exchange => !exchange.command.isAmbient

/-- The machines differ in what the host moves and in nothing else. The components that they agree
in are the ones by which steps were compared before. -/
theorem secluded_eq_iff (left right : Machine) :
    left.secluded = right.secluded ↔
      left.SameCourse right ∧ left.memory = right.memory ∧ left.entropy = right.entropy := by
  constructor
  · intro same
    simp only [secluded, mk.injEq, Config.mk.injEq, true_and] at same
    obtain ⟨policy, opcode, memory, registers, index, counter, stack, screen, status, entropy⟩ :=
      same
    exact ⟨⟨policy, opcode, registers, index, counter, stack, screen, status⟩, memory, entropy⟩
  · rintro ⟨course, memory, entropy⟩
    apply eq_of_sameCourse
    · exact ⟨course.policy, course.opcode, course.registers, course.index, course.counter,
        course.stack, course.screen, course.status⟩
    · simp only [secluded, course.policy]
    · exact memory
    · rfl
    · rfl
    · rfl
    · exact entropy

/-- Machines that differ in what the host moves look alike to a step that does not ask for it. The
assumption is about one of them; both come to the same instruction. -/
theorem looksAlike_of_secluded (left right : Machine) (same : left.secluded = right.secluded)
    (unsensed : left.sensesHost = false) : left.LooksAlike right := by
  obtain ⟨course, memory, entropy⟩ := (secluded_eq_iff left right).mp same
  refine ⟨course, fun _ _ => ?_, fun instruction meets => ?_⟩
  · rw [nextWord, nextWord, memory, course.counter]
  · have senseless : (instruction.readsDelay || instruction.readsKeys) = false := by
      simpa [sensesHost, (instruction?_eq_some_iff left instruction).mpr meets] using unsensed
    obtain ⟨noDelay, noKeys⟩ := Bool.or_eq_false_iff.mp senseless
    refine ⟨fun _ _ => by rw [memory], fun reads => ?_, fun reads => ?_, fun _ => by rw [entropy]⟩
    · rw [noDelay] at reads
      contradiction
    · rw [noKeys] at reads
      contradiction

/-- What a request of the script shows: its answer, its reports, and the machine behind it without
what the host moves, which may differ. -/
def shown (exchange : Exchange) : Reply × List Event × Machine :=
  (exchange.response.reply, exchange.response.events, exchange.response.machine.secluded)

/-- Machines that differ in what the host moves show the same to the same request, unless it is a
step that asks for it. A step then reads the same in both, and the other requests read nothing
that the host moves. -/
theorem shown_of_secluded (left right : Machine) (same : left.secluded = right.secluded)
    (command : Command) (unsensed : command = .step → left.sensesHost = false) :
    shown ⟨left, command⟩ = shown ⟨right, command⟩ := by
  have looks : command = .step → left.LooksAlike right := fun steps =>
    looksAlike_of_secluded left right same (unsensed steps)
  obtain ⟨course, memory, entropy⟩ := (secluded_eq_iff left right).mp same
  obtain ⟨reply, events, alike⟩ := obey_of_looksAlike left right course command looks
  have behind : (left.obey command).machine.secluded = (right.obey command).machine.secluded :=
    (secluded_eq_iff _ _).mpr ⟨alike.course, alike.memory_eq memory,
      entropy_obey_congr left right command looks entropy⟩
  simp only [shown, Exchange.response, reply, events, behind]

/-- The host's counting and its keys move nothing else. -/
theorem secluded_obey_of_ambient (machine : Machine) (command : Command)
    (ambient : command.isAmbient = true) :
    (machine.obey command).machine.secluded = machine.secluded := by
  obtain ⟨delay, sound, keypad, behind⟩ := obey_of_ambient machine command ambient
  rw [behind]
  rfl

/-- Nothing but counting and keys has no script and moves nothing else, however long it goes on.
-/
theorem scripted_of_ambient (machine : Machine) (history : List Command)
    (ambient : ∀ command ∈ history, command.isAmbient = true) :
    machine.scripted history = [] ∧ (machine.after history).secluded = machine.secluded := by
  constructor
  · rw [scripted, List.filter_eq_nil_iff]
    intro exchange given
    simp [ambient _ (command_mem_of_mem_exchanges machine history exchange given)]
  · apply (exchanges_induction (fun reached => reached.secluded = machine.secluded) machine
      history ?_ rfl).2
    intro exchange given same
    have waits := ambient _ (command_mem_of_mem_exchanges machine history exchange given)
    rw [Exchange.response, secluded_obey_of_ambient _ _ waits, same]

/-- A request of the script stands first among those that follow it, whatever counting and keys
stand before it. It is asked of the machine behind these. -/
theorem scripted_append_cons (machine : Machine) (idle : List Command) (command : Command)
    (rest : List Command) (ambient : ∀ earlier ∈ idle, earlier.isAmbient = true)
    (acts : command.isAmbient = false) :
    machine.scripted (idle ++ command :: rest) =
      ⟨machine.after idle, command⟩ ::
        ((machine.after idle).obey command).machine.scripted rest := by
  rw [scripted, exchanges_append, List.filter_append, ← scripted,
    (scripted_of_ambient machine idle ambient).1, List.nil_append, exchanges,
    List.filter_cons_of_pos]
  · rfl
  · simp [acts]

/-- Machines that differ in what the host moves follow the same script alike, as long as no step
asks for it. The induction is on the first history. Counting and keys in it are passed over, with
the other history unchanged; a request of the script is also the next one of the other history,
behind whatever its host does before it. -/
theorem shown_of_script (left right : Machine) (history other : List Command)
    (same : left.secluded = right.secluded) (follows : script history = script other)
    (unsensed : ∀ exchange ∈ left.exchanges history, exchange.command = .step →
      exchange.machine.sensesHost = false) :
    (left.scripted history).map shown = (right.scripted other).map shown ∧
      (left.after history).secluded = (right.after other).secluded := by
  induction history generalizing left right other with
  | nil =>
    have ambient : ∀ command ∈ other, command.isAmbient = true := by
      simpa [script] using follows.symm
    obtain ⟨empty, kept⟩ := scripted_of_ambient right other ambient
    rw [empty]
    exact ⟨rfl, same.trans kept.symm⟩
  | cons command rest inductionHypothesis =>
    obtain ⟨first, later⟩ := List.forall_mem_cons.mp unsensed
    cases acts : command.isAmbient with
    | true =>
      have sameBehind := (secluded_obey_of_ambient left command acts).trans same
      have followsBehind : script rest = script other := by
        rw [← follows, script, script, List.filter_cons_of_neg (by simp [acts])]
      obtain ⟨alike, reached⟩ := inductionHypothesis _ _ other sameBehind followsBehind later
      refine ⟨?_, reached⟩
      rw [← alike, scripted, scripted, exchanges, List.filter_cons_of_neg (by simp [acts])]
    | false =>
      -- The other history comes to the same request behind counting and keys of its own.
      rw [script, List.filter_cons_of_pos (by simp [acts])] at follows
      obtain ⟨idle, further, rfl, waits, _, followsBehind⟩ :=
        List.filter_eq_cons_iff.mp follows.symm
      have ambient : ∀ earlier ∈ idle, earlier.isAmbient = true := by simpa using waits
      have sameThere := same.trans (scripted_of_ambient right idle ambient).2.symm
      have showsAlike := shown_of_secluded left (right.after idle) sameThere command first
      obtain ⟨alike, reached⟩ := inductionHypothesis _ ((right.after idle).obey command).machine
        further (congrArg (fun seen => seen.2.2) showsAlike) followsBehind.symm later
      have split := scripted_append_cons left [] command rest (by simp) acts
      rw [List.nil_append, after_nil] at split
      rw [split, scripted_append_cons right idle command further ambient acts, List.map_cons,
        List.map_cons, showsAlike, alike, after_append]
      exact ⟨rfl, reached⟩

/-- No command sees the sound timer: it is answered and reported alike, and nothing but the sound
timer differs behind it. Here no instruction needs to be excluded, since none reads this timer. -/
theorem obey_of_sound (machine : Machine) (sound : Countdown) (command : Command) :
    (({ machine with sound } : Machine).obey command).reply = (machine.obey command).reply ∧
      (({ machine with sound } : Machine).obey command).events = (machine.obey command).events ∧
      ∃ left, (({ machine with sound } : Machine).obey command).machine =
        { (machine.obey command).machine with sound := left } := by
  have course : machine.SameCourse { machine with sound } :=
    sameCourse_beside machine _ rfl _ _ sound _ _
  have looks : command = .step → machine.LooksAlike { machine with sound } := fun _ =>
    ⟨course, fun _ _ => rfl, fun _ _ => ⟨fun _ _ => rfl, fun _ => rfl, fun _ => rfl, fun _ => rfl⟩⟩
  obtain ⟨reply, events, alike⟩ := obey_of_looksAlike machine _ course command looks
  refine ⟨reply, events, (({ machine with sound } : Machine).obey command).machine.sound,
    Eq.symm ?_⟩
  have kept := alike.course
  apply eq_of_sameCourse
  · exact ⟨kept.policy, kept.opcode, kept.registers, kept.index, kept.counter, kept.stack,
      kept.screen, kept.status⟩
  · exact (config_obey machine command).trans (config_obey { machine with sound } command).symm
  · exact alike.memory_eq rfl
  · exact alike.delay rfl rfl
  · rfl
  · exact alike.keypad rfl
  · exact entropy_obey_congr machine _ command looks rfl

/-- Two machines that differ in what the host moves follow the same script alike, whatever else
their hosts do in between, as long as no step asks for it. And a machine whose sound timer alone
is different answers and reports the same over every history, and differs in nothing but its sound
timer throughout.

For the first part the two histories are matched request by request, although they need not have
the same length, and each step is compared by what it reads. That no step asks for the delay timer
or the keys has to be assumed of one history only, because the other comes to the same
instructions. The second part compares the same history with itself, so there every command is
covered and nothing is assumed. -/
theorem host_reaches_senses_only :
    (∀ (left right : Machine) (history other : List Command),
      left.secluded = right.secluded → script history = script other →
      (∀ exchange ∈ left.exchanges history, exchange.command = .step →
        exchange.machine.sensesHost = false) →
      (left.scripted history).map shown = (right.scripted other).map shown ∧
        (left.after history).secluded = (right.after other).secluded) ∧
      ∀ (machine : Machine) (sound : Countdown) (history : List Command),
        ({ machine with sound } : Machine).replies history = machine.replies history ∧
          ({ machine with sound } : Machine).reports history = machine.reports history ∧
          ∀ stretch, stretch <+: history → ∃ left,
            ({ machine with sound } : Machine).after stretch =
              { machine.after stretch with sound := left } := by
  constructor
  · intro left right history other same follows unsensed
    exact shown_of_script left right history other same follows unsensed
  · intro machine sound history
    apply exchanges_simulation fun one another => ∃ left, another = { one with sound := left }
    · rintro exchange _ _ ⟨left, rfl⟩
      exact obey_of_sound exchange.machine left exchange.command
    · exact ⟨sound, rfl⟩

/-- A machine whose program starts the delay timer, takes a random byte and stores three
registers behind itself. -/
def clerk (cadence : Cadence) : Machine :=
  (powerOn { cadence } ⟨fun position => position.toUInt8, 7⟩).after
    [.load [0x61, 0x09, 0xF1, 0x15, 0xC2, 0xFF, 0xA3, 0x00, 0xF2, 0x55]]

/-- The program with a second one loaded on the way, under a host that counts. -/
def officeHours : List Command :=
  [.step, .step, .tick, .tick, .load [0x63, 0x04], .step, .setKey 2 true, .step, .step]

/-- The same under a host that moves the keys. -/
def nightShift : List Command :=
  [.setKey 5 true, .step, .step, .load [0x63, 0x04], .step, .setKeys .released, .step, .step,
    .setKey 16 true]

/-- The machine that counts its timers itself comes to the same memory with other ticks
left, and would have under a tone as well. -/
theorem clerk_undisturbed :
    ((clerk .host).after officeHours).memory = ((clerk .instruction).after nightShift).memory ∧
      ((clerk .host).after officeHours).memory.read 0x302 = 0x07 ∧
      ((clerk .host).after officeHours).delay ≠ ((clerk .instruction).after nightShift).delay ∧
      ∃ left, ({ clerk .host with sound := ⟨60⟩ } : Machine).after officeHours =
        { (clerk .host).after officeHours with sound := left } := by
  obtain ⟨unsensed, stored, ticks⟩ :
      (((clerk .host).exchanges officeHours).any (Exchange.isStepWith sensesHost)) = false ∧
        ((clerk .host).after officeHours).memory.read 0x302 = 0x07 ∧
        ((clerk .host).after officeHours).delay ≠
          ((clerk .instruction).after nightShift).delay := by
    decide +kernel
  obtain ⟨scripts, sounds⟩ := host_reaches_senses_only
  obtain ⟨_, reached⟩ := scripts (clerk .host) (clerk .instruction) officeHours nightShift rfl rfl
    fun exchange given steps => by
      simpa [Exchange.isStepWith, steps] using List.any_eq_false.mp unsensed exchange given
  obtain ⟨_, memory, _⟩ := (secluded_eq_iff _ _).mp reached
  obtain ⟨_, _, throughout⟩ := sounds (clerk .host) ⟨60⟩ officeHours
  exact ⟨memory, stored, ticks, throughout officeHours List.prefix_rfl⟩

end Machine

end Chip8
