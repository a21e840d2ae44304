import Chip8.Console
import Chip8.Proofs.Machine.Burst

/-!
# The picture of the host

A console presents the screen only behind frames in which it may have changed, so
the host's picture is a copy that has to stay right without being renewed. It
does, as long as only frames step the machine and nothing resets it: a frame that
presents nothing has left the screen alone, and so has every other request.
-/

namespace Chip8

/-- The calls of a later stretch act on the picture that the earlier ones left, so a history can
be followed request by request. -/
theorem DisplayCall.pictureAfter_append (before : Screen) (earlier later : List DisplayCall) :
    pictureAfter before (earlier ++ later) = pictureAfter (pictureAfter before earlier) later :=
  List.foldl_append

/-- The request neither resets the machine nor steps it outside of a frame. A reset or a step of
the host's own could change the screen with nobody there to present it. -/
def ConsoleRequest.stepsInFrames : ConsoleRequest → Bool
  | .frame _ => true
  | .command asked => asked.isPassive

namespace Console

/-- Counting down behind a frame keeps the screen, so it is the same whether the picture is taken
before the timers are counted down or behind. -/
theorem screen_tickFrame (machine : Machine) : (tickFrame machine).screen = machine.screen := by
  unfold tickFrame
  split <;> rfl

/-- A frame leaves the screen as its steps left it, whether or not it ended in a
fault. -/
theorem screen_frame (console : Console) (keys : Keypad) :
    (console.frame keys).console.machine.screen =
      ((console.machine.setKeys keys).burst console.pacing.cycles).machine.screen := by
  unfold frame
  dsimp only
  split
  · rfl
  · exact screen_tickFrame _

/-- A frame presents what its steps left, if one of them drew. Whether it ended in a fault plays
no part in it. -/
theorem calls_frame (console : Console) (keys : Keypad) :
    (console.frame keys).calls =
      let burst := (console.machine.setKeys keys).burst console.pacing.cycles
      if burst.drawn then [.present burst.machine.screen] else [] := by
  unfold frame
  dsimp only
  split <;> rfl

/-- A frame makes one call of the display exactly if one of its steps signalled a change of the
screen. Those are the steps that the frame makes, each named by its index. -/
theorem length_calls_frame_iff (console : Console) (keys : Keypad) :
    (console.frame keys).calls.length = 1 ↔
      ∃ index, (console.machine.setKeys keys).MakesStep console.pacing.cycles index ∧
        ((console.machine.setKeys keys).afterSteps index).step.result = .ok .draw := by
  rw [← Machine.drawn_burst_iff, calls_frame]
  dsimp only
  split
  · next drawn => simp [drawn]
  · next undrawn => simp [undrawn]

/-- A frame keeps a picture that shows the screen. If it presents the screen there is nothing to
show; if it presents nothing, no step of it drew and a burst that did not draw has left the screen
alone. -/
theorem picture_frame (console : Console) (keys : Keypad) :
    DisplayCall.pictureAfter console.machine.screen (console.frame keys).calls =
      (console.frame keys).console.machine.screen := by
  rw [calls_frame, screen_frame]
  dsimp only
  split
  · rfl
  · next undrawn =>
    have kept := Machine.screen_burst _ _ (Bool.eq_false_iff.mpr undrawn)
    exact kept.symm

/-- A request that steps only in frames keeps a picture that shows the screen. What is not a frame
is a passive command of the machine, which leaves the screen out of reach. -/
theorem picture_obey (console : Console) (request : ConsoleRequest)
    (permitted : request.stepsInFrames = true) :
    DisplayCall.pictureAfter console.machine.screen (console.obey request).2 =
      (console.obey request).1.machine.screen := by
  cases request with
  | frame keys => exact picture_frame console keys
  | command command => exact (Machine.sameCore_obey console.machine command permitted).screen.symm

/-- A request keeps the pace. -/
theorem pacing_obey (console : Console) (request : ConsoleRequest) :
    (console.obey request).1.pacing = console.pacing := by
  cases request with
  | command command => rfl
  | frame keys =>
    unfold obey frame
    dsimp only
    split <;> rfl

/-- Requests keep the pace, so the steps that a later frame is allowed are those that the console
was made for. -/
theorem pacing_after (console : Console) (requests : List ConsoleRequest) :
    (console.after requests).1.pacing = console.pacing := by
  induction requests generalizing console with
  | nil => rfl
  | cons request rest inductionHypothesis =>
    exact (inductionHypothesis _).trans (pacing_obey console request)

/-- Requests that step only in frames keep a picture that shows the screen, by induction on their
list: each request starts from a picture that the earlier ones left right. -/
theorem picture_after (console : Console) (requests : List ConsoleRequest)
    (permitted : ∀ request ∈ requests, request.stepsInFrames = true) :
    DisplayCall.pictureAfter console.machine.screen (console.after requests).2 =
      (console.after requests).1.machine.screen := by
  induction requests generalizing console with
  | nil => rfl
  | cons request rest inductionHypothesis =>
    obtain ⟨first, later⟩ := List.forall_mem_cons.mp permitted
    simp only [after]
    rw [DisplayCall.pictureAfter_append, picture_obey console request first]
    exact inductionHypothesis _ later

/-- A new console over a blank screen clears the host's picture. From then on the picture is the
screen behind every history of requests that step only in frames, and a next frame makes at most
one call of the display, which it makes exactly if one of its steps signals a change of the
screen, even if it ends in a fault.

That the picture shows the screen is what each request preserves. The blank screen is needed to
start from, because the opening call clears whatever picture the host held before. Requests that
step or reset the machine directly are excluded, because a console presents only what its frames
draw. -/
theorem picture_of_opened (console : Console) (blank : console.machine.screen = .blank)
    (requests : List ConsoleRequest)
    (permitted : ∀ request ∈ requests, request.stepsInFrames = true) (held : Screen) :
    let reached := (console.after requests).1
    DisplayCall.pictureAfter held (openingCalls ++ (console.after requests).2) =
        reached.machine.screen ∧
      ∀ keys,
        let opened := reached.machine.setKeys keys
        (reached.frame keys).calls.length ≤ 1 ∧
          ((reached.frame keys).calls.length = 1 ↔
            ∃ index, opened.MakesStep console.pacing.cycles index ∧
              (opened.afterSteps index).step.result = .ok .draw) := by
  have pace := pacing_after console requests
  refine ⟨?_, fun keys => ⟨length_calls_frame_le _ keys, ?_⟩⟩
  · rw [DisplayCall.pictureAfter_append]
    have cleared : DisplayCall.pictureAfter held openingCalls = console.machine.screen := blank.symm
    rw [cleared]
    exact picture_after console requests permitted
  · rw [← pace]
    exact length_calls_frame_iff _ keys

/-- A console whose program draws a digit and returns from no call, both within its first frame.
-/
def drawsAndFaults : Console where
  machine :=
    (Machine.powerOn {} (Entropy.cycle #[])).after [.load [0xF0, 0x29, 0xD0, 0x05, 0x00, 0xEE]]

/-- Behind a frame that draws and faults, the host may load, tick and ask for
another frame. -/
def faultHistory : List ConsoleRequest :=
  [.frame .released, .command (.load [0x00, 0xE0]), .command .tick, .frame .released]

/-- The digit is presented although the frame ends in a fault, and it stays in the
picture, as on the screen, when nothing can be drawn any more. -/
theorem picture_faultHistory :
    drawsAndFaults.machine.screen = .blank ∧
      (∀ request ∈ faultHistory, request.stepsInFrames = true) ∧
      (drawsAndFaults.frame .released).calls.length = 1 ∧
      (drawsAndFaults.after faultHistory).1.machine.status = .halted (.stack .empty) ∧
      (drawsAndFaults.after faultHistory).1.machine.screen ≠ .blank ∧
      DisplayCall.pictureAfter .blank (openingCalls ++ (drawsAndFaults.after faultHistory).2) =
        (drawsAndFaults.after faultHistory).1.machine.screen := by
  obtain ⟨blank, presented, halted, shown⟩ :
      drawsAndFaults.machine.screen = .blank ∧
        (drawsAndFaults.frame .released).calls.length = 1 ∧
        (drawsAndFaults.after faultHistory).1.machine.status = .halted (.stack .empty) ∧
        (drawsAndFaults.after faultHistory).1.machine.screen ≠ .blank := by decide +kernel
  have permitted : ∀ request ∈ faultHistory, request.stepsInFrames = true := by
    simp [faultHistory, ConsoleRequest.stepsInFrames, Command.isPassive]
  exact ⟨blank, permitted, presented, halted, shown,
    (picture_of_opened drawsAndFaults blank faultHistory permitted .blank).1⟩

end Console

end Chip8
