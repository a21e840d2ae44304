import Chip8.Playback
import Chip8.Proofs.Console.Turn

/-!
# The end of a playback

A playback stops at the first frame that ends in a fault and says so once. Nothing is
lost by stopping: the machine has halted, so a further frame under any keys would end in
the same fault at its first step, with nothing to show, to count down or to report, and
would leave the machine as it is but for its copy of the keys.
-/

namespace Chip8

/-- The wording of the event begins as the announcement of a stop does. The test is on the text,
as a reader of the log would make it, and not on the kind of the event. -/
def Event.announcesStop (event : Event) : Bool :=
  "Stopped the execution: ".toList.isPrefixOf event.message.toList

/-- No other event is worded like a stop, so the text of an event says whether it is one. Every
other wording differs from the announcement within its first characters. -/
theorem Event.announcesStop_eq (event : Event) :
    event.announcesStop =
      match event with
      | .stoppedPlayback _ => true
      | _ => false := by
  rw [Bool.eq_iff_iff, announcesStop, List.isPrefixOf_iff_prefix]
  cases event <;> unfold message <;> simp [String.toList_append, Numeral.hex]

namespace Machine

/-- No step announces a stop. A step reports its own fault, a skipped word, a halt or the remarks
of its instruction, and none of them is worded like a stop. -/
theorem not_announcesStop_step (machine : Machine) :
    ∀ event ∈ machine.step.events, event.announcesStop = false := by
  have taken := machine.transition_step
  generalize machine.step = outcome at taken ⊢
  cases taken with
  | halted fault stopped => simp
  | overran active outside => simp [fail, Event.announcesStop_eq]
  | refused cause active inside unknown => simp [fail, Event.announcesStop_eq]
  | failed instruction cause active inside decoded unable => simp [fail, Event.announcesStop_eq]
  | skipped active inside unknown => simp [Effect.complete, Event.announcesStop_eq]
  | executed instruction effect active inside decoded done =>
    have silent : ∀ event ∈ effect.remarks, event.announcesStop = false := by
      intro event remarked
      rcases remarks_of_execute _ _ _ done event remarked with ⟨address, rfl⟩ | ⟨target, rfl⟩ <;>
        exact Event.announcesStop_eq _
    simpa [Effect.complete, Event.announcesStop_eq] using silent

/-- No burst announces a stop, by induction on the most steps that it may take: its events are
those of its first step and of the burst behind it. -/
theorem not_announcesStop_burst (machine : Machine) (most : Nat) :
    ∀ event ∈ (machine.burst most).events, event.announcesStop = false := by
  induction most generalizing machine with
  | zero => simp [burst]
  | succ remaining inductionHypothesis =>
    have first := not_announcesStop_step machine
    cases result : machine.step.result with
    | error fault =>
      rw [burst_of_error machine remaining fault result]
      exact first
    | ok signal =>
      by_cases waits : signal = .wait
      · subst waits
        rw [burst_of_wait machine remaining result]
        exact first
      · rw [burst_of_goesOn machine remaining signal result waits]
        exact List.forall_mem_append.mpr ⟨first, inductionHypothesis _⟩

end Machine

namespace Console

/-- The console with another copy of the keys in its machine. A frame of a halted machine comes to
no more than this. -/
def withKeys (console : Console) (keys : Keypad) : Console :=
  { console with machine := console.machine.setKeys keys }

/-- No frame announces a stop, since its events are those of its steps. The announcement is left
to the playback. -/
theorem not_announcesStop_frame (console : Console) (keys : Keypad) :
    ∀ event ∈ (console.frame keys).events, event.announcesStop = false := by
  have silent := (console.machine.setKeys keys).not_announcesStop_burst console.pacing.cycles
  unfold frame
  dsimp only
  split <;> exact silent

/-- A halted machine ends every frame that is allowed a step by its fault. The frame takes the
keys and does nothing else: its first step repeats the fault, changes and draws nothing, and
behind a fault the timers are left alone. -/
theorem frame_of_halted (console : Console) (fault : Fault)
    (halted : console.machine.status = .halted fault) (allowed : 0 < console.pacing.cycles)
    (keys : Keypad) :
    console.frame keys =
      { console := console.withKeys keys, result := .error fault, calls := [], events := [] } := by
  obtain ⟨remaining, cycles⟩ := Nat.exists_eq_add_one.mpr allowed
  have stopped := Machine.step_of_halted (console.machine.setKeys keys) fault halted
  have failed : (console.machine.setKeys keys).step.result = .error fault := by rw [stopped]
  rw [frame_eq_conclude, cycles, Machine.burst_of_error _ remaining fault failed, stopped]
  rfl

/-- Whatever keys the host holds, the frames of a halted machine are all alike. Each leaves a
halted machine allowed as many steps, so the induction over the keys goes through. -/
theorem outcome_of_halted (console : Console) (fault : Fault)
    (halted : console.machine.status = .halted fault) (allowed : 0 < console.pacing.cycles)
    (keys : List Keypad) :
    ∀ turn ∈ console.turns keys,
      turn.outcome =
        { console := console.withKeys turn.keys
          result := .error fault
          calls := []
          events := [] } := by
  induction keys generalizing console with
  | nil => exact fun _ member => absurd member List.not_mem_nil
  | cons first rest inductionHypothesis =>
    have frame := frame_of_halted console fault halted allowed first
    rw [turns, frame]
    refine List.forall_mem_cons.mpr ⟨frame, ?_⟩
    exact inductionHypothesis (console.withKeys first) halted allowed

/-- Frames of a halted machine ask nothing of the display and leave nothing behind but the last
keys. Without any frame these are the keys that the machine had, which is why the keys are only
said to exist. -/
theorem afterFrames_of_halted (console : Console) (fault : Fault)
    (halted : console.machine.status = .halted fault) (allowed : 0 < console.pacing.cycles)
    (keys : List Keypad) :
    ∃ held, console.afterFrames keys = (console.withKeys held, []) := by
  induction keys generalizing console with
  | nil => exact ⟨console.machine.keypad, rfl⟩
  | cons first rest inductionHypothesis =>
    obtain ⟨held, later⟩ := inductionHypothesis (console.withKeys first) halted allowed
    refine ⟨held, ?_⟩
    rw [afterFrames_cons, frame_of_halted console fault halted allowed first, later]
    rfl

/-- The turns of a console up to the first that ends in a fault, that one included. They are all
of the turns if none does. -/
def played (console : Console) (keys : List Keypad) : List Turn :=
  (console.turns keys).take ((console.turns keys).findIdx Turn.faults + 1)

/-- The fault of the first turn that ends in one, and none if all of the frames report. -/
def firstFault? (console : Console) (keys : List Keypad) : Option Fault :=
  (console.turns keys).findSome? Turn.fault?

/-- Nothing is played behind a fault: if the first frame ends in one, it is the only turn that is
played, and its fault is the first. -/
theorem played_of_error (console : Console) (first : Keypad) (rest : List Keypad) (fault : Fault)
    (failed : (console.frame first).result = .error fault) :
    console.played (first :: rest) = [⟨console, first⟩] ∧
      console.firstFault? (first :: rest) = some fault := by
  have faulty : (⟨console, first⟩ : Turn).fault? = some fault :=
    (Turn.fault?_eq_some_iff _ fault).mpr failed
  have faults : (⟨console, first⟩ : Turn).faults = true := by rw [Turn.faults, faulty]; rfl
  constructor
  · simp [played, turns, List.findIdx_cons, faults]
  · simp [firstFault?, turns, faulty]

/-- Behind any other frame playing goes on from the console that it left. With the case of a fault
this makes the played turns a recursion over the keys, as the playback itself is. -/
theorem played_of_ok (console : Console) (first : Keypad) (rest : List Keypad) (report : Frame)
    (succeeded : (console.frame first).result = .ok report) :
    console.played (first :: rest) =
        ⟨console, first⟩ :: (console.frame first).console.played rest ∧
      console.firstFault? (first :: rest) = (console.frame first).console.firstFault? rest := by
  have faultless : (⟨console, first⟩ : Turn).fault? = none :=
    (Turn.fault?_eq_none_iff _).mpr ⟨report, succeeded⟩
  have faults : (⟨console, first⟩ : Turn).faults = false := by rw [Turn.faults, faultless]; rfl
  constructor
  · simp [played, turns, List.findIdx_cons, faults]
  · simp [firstFault?, turns, faultless]

/-- The frames of the host's keys reach what the played frames reach, as far as anyone can see who
does not look at the machine's copy of the keys. Up to the first fault they are the same frames,
and the ones behind it are those of a halted machine. -/
theorem afterFrames_played (console : Console) (keys : List Keypad) :
    ∃ held,
      let played := console.afterFrames ((console.played keys).map Turn.keys)
      console.afterFrames keys = (played.1.withKeys held, played.2) := by
  induction keys generalizing console with
  | nil => exact ⟨console.machine.keypad, rfl⟩
  | cons first rest inductionHypothesis =>
    cases result : (console.frame first).result with
    | error fault =>
      obtain ⟨halted, allowed⟩ := (⟨console, first⟩ : Turn).halted_of_fault fault result
      obtain ⟨held, idle⟩ :=
        afterFrames_of_halted (console.frame first).console fault halted allowed rest
      refine ⟨held, ?_⟩
      rw [(played_of_error console first rest fault result).1, afterFrames_cons, idle]
      rfl
    | ok report =>
      obtain ⟨held, later⟩ := inductionHypothesis (console.frame first).console
      refine ⟨held, ?_⟩
      rw [(played_of_ok console first rest report result).1, afterFrames_cons, later]
      rfl

end Console

namespace Playback

/-- A stopped playback ignores every interval: it stays as it is, asks nothing of the display and
reports nothing, however many intervals there are. -/
theorem intervals_of_stopped (playback : Playback) (stopped : playback.stopped = true)
    (keys : List Keypad) : playback.intervals keys = { playback } := by
  induction keys with
  | nil => rfl
  | cons first rest inductionHypothesis =>
    rw [intervals, interval_of_stopped playback first stopped, inductionHypothesis]
    rfl

/-- An interval whose frame ends in a fault stops the playback and says so behind everything that
the frame itself reports. -/
theorem interval_of_error (console : Console) (keys : Keypad) (fault : Fault)
    (failed : (console.frame keys).result = .error fault) :
    ({ console } : Playback).interval keys =
      { playback := { console := (console.frame keys).console, stopped := true }
        calls := (console.frame keys).calls
        events := (console.frame keys).events ++ [.stoppedPlayback fault] } := by
  simp [interval, failed]

/-- Any other interval is its frame, and leaves the playback going from the console of the frame.
-/
theorem interval_of_ok (console : Console) (keys : Keypad) (report : Frame)
    (succeeded : (console.frame keys).result = .ok report) :
    ({ console } : Playback).interval keys =
      { playback := { console := (console.frame keys).console }
        calls := (console.frame keys).calls
        events := (console.frame keys).events } := by
  simp [interval, succeeded]

/-- The intervals of a playback play the frames up to the first fault, and report that fault
behind them. The induction is on the keys of the host: at a fault the intervals that remain are
those of a stopped playback, and behind any other frame they are those of the console it left. -/
theorem intervals_eq_played (console : Console) (keys : List Keypad) :
    let run := ({ console } : Playback).intervals keys
    (run.playback.console, run.calls) =
        console.afterFrames ((console.played keys).map Turn.keys) ∧
      run.events =
        (console.played keys).flatMap (·.outcome.events) ++
          ((console.firstFault? keys).map Event.stoppedPlayback).toList := by
  intro run
  induction keys generalizing console with
  | nil => exact ⟨rfl, rfl⟩
  | cons first rest inductionHypothesis =>
    cases result : (console.frame first).result with
    | error fault =>
      obtain ⟨alone, found⟩ := Console.played_of_error console first rest fault result
      have stopped := intervals_of_stopped
        { console := (console.frame first).console, stopped := true } rfl rest
      simp only [run, intervals, interval_of_error console first fault result, stopped, alone,
        found]
      exact ⟨rfl, by simp [Turn.outcome]⟩
    | ok report =>
      obtain ⟨goesOn, found⟩ := Console.played_of_ok console first rest report result
      obtain ⟨reached, reported⟩ := inductionHypothesis (console.frame first).console
      simp only [run, intervals, interval_of_ok console first report result, goesOn, found]
      refine ⟨?_, ?_⟩
      · rw [List.map_cons, Console.afterFrames_cons, ← reached]
      · rw [reported, List.flatMap_cons, List.append_assoc]
        rfl

/-- The announcements of stops in a playback are the one of its first fault. The frames announce
none, so of all that is reported only the last event can be one. -/
theorem filter_announcesStop_intervals (console : Console) (keys : List Keypad) :
    (({ console } : Playback).intervals keys).events.filter Event.announcesStop =
      ((console.firstFault? keys).map Event.stoppedPlayback).toList := by
  have silent : ((console.played keys).flatMap (·.outcome.events)).filter Event.announcesStop =
      [] := by
    rw [List.filter_eq_nil_iff]
    intro event reported
    obtain ⟨turn, _, within⟩ := List.mem_flatMap.mp reported
    exact Bool.eq_false_iff.mp (turn.console.not_announcesStop_frame turn.keys event within)
  rw [(intervals_eq_played console keys).2, List.filter_append, silent, List.nil_append,
    List.filter_eq_self]
  intro event announced
  obtain ⟨fault, _, rfl⟩ := by simpa using announced
  exact Event.announcesStop_eq _

/-- A playback of any number of intervals is its frames up to the first that ends in a fault, that
one included, and nothing else: it leaves their console and asks of the display what they ask. It
reports what they report and behind that the stop, once and with the fault, if there was one.
Whoever had gone on behind a frame that ended in a fault would have seen every frame end in it,
ask nothing, report nothing and change nothing but the machine's copy of the keys; so all the
frames of the host's keys lead to the same calls and to the same console, apart from these keys.

The first part is an induction along the intervals, which go on as the played turns do. That the
stop is announced once needs the wordings: no frame reports an event that reads like it. The rest
follows from the latch of the machine. A frame that ends in a fault was allowed a step and leaves
the machine halted, and a frame of a halted machine that is allowed a step fails at once. -/
theorem playback_ends_with_first_fault (console : Console) (keys : List Keypad) :
    let run := ({ console } : Playback).intervals keys
    let played := console.played keys
    let stop := ((console.firstFault? keys).map Event.stoppedPlayback).toList
    ((run.playback.console, run.calls) = console.afterFrames (played.map Turn.keys) ∧
        run.events = played.flatMap (·.outcome.events) ++ stop ∧
        run.events.filter Event.announcesStop = stop) ∧
      (∀ turn ∈ console.turns keys, ∀ fault, turn.outcome.result = .error fault →
        ∀ further, ∀ next ∈ turn.outcome.console.turns further,
          next.outcome =
            { console := turn.outcome.console.withKeys next.keys
              result := .error fault
              calls := []
              events := [] }) ∧
      ∃ held, console.afterFrames keys = (run.playback.console.withKeys held, run.calls) := by
  intro run played stop
  obtain ⟨reached, reported⟩ := intervals_eq_played console keys
  refine ⟨⟨reached, reported, filter_announcesStop_intervals console keys⟩, ?_, ?_⟩
  · intro turn _ fault failed further
    obtain ⟨halted, allowed⟩ := turn.halted_of_fault fault failed
    exact turn.outcome.console.outcome_of_halted fault halted allowed further
  · obtain ⟨held, same⟩ := console.afterFrames_played keys
    rw [← reached] at same
    exact ⟨held, same⟩

/-- A console whose program waits for a key, draws and returns from no call. Its fault comes in
the frame with the key, behind an instruction that has drawn. -/
def fragile : Console where
  machine :=
    (Machine.powerOn {} (Entropy.cycle #[])).after [.load [0xF0, 0x0A, 0xD0, 0x05, 0x00, 0xEE]]

/-- Two frames without a key, one with the key that ends the wait, and two more. -/
def strokes : List Keypad :=
  [.released, .released, .ofKeys (· == 5), .ofKeys (· == 7), .released]

/-- The third frame draws and ends in the fault. The playback presents its picture and
announces the stop once; the frames behind it would have presented nothing. -/
theorem fragile_stops :
    (fragile.played strokes).length = 3 ∧
      (({ console := fragile } : Playback).intervals strokes).calls.length = 1 ∧
      (({ console := fragile } : Playback).intervals strokes).events.filter Event.announcesStop =
        [.stoppedPlayback (.stack .empty)] ∧
      (fragile.afterFrames strokes).2.length = 1 := by
  obtain ⟨three, fault, once⟩ :
      (fragile.played strokes).length = 3 ∧
        fragile.firstFault? strokes = some (.stack .empty) ∧
        (({ console := fragile } : Playback).intervals strokes).calls.length = 1 := by
    decide +kernel
  obtain ⟨⟨_, _, announced⟩, _, held, uncut⟩ := playback_ends_with_first_fault fragile strokes
  rw [fault] at announced
  refine ⟨three, once, announced, ?_⟩
  rw [uncut]
  exact once

end Playback

end Chip8
