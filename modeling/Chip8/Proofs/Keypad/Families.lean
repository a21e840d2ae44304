import Chip8.Proofs.Keypad.Writes
import Mathlib.Data.List.Basic
import Mathlib.Data.List.Induction
import Mathlib.Logic.Relation

/-!
# Families of handles

Handles that were joined to each other, directly or by way of others, are a family. Which handles
these are is a matter of the requests alone. A family shares one keypad: each key is as the
latest write left it that reached the key through any handle of the family, and no other write
is seen.

The handles of one keypad all descend from the handle that it was given out with. So handles
that have a keypad in common have a forebear in common, and the other way round.
-/

namespace Chip8

namespace SharedRequest

/-- The handle that a request speaks of. A separate keypad is asked for without one. -/
def handle? : SharedRequest → Option Nat
  | join handle => some handle
  | separate => none
  | write handle _ => some handle

/-- What a request makes of a key of those handles, if it writes the key through one of them. A
request that gives out a handle writes nothing. -/
def gives? (among : Nat → Bool) (key : Nat) : SharedRequest → Option Bool
  | write handle request => if among handle then request.gives? key else none
  | _ => none

/-- What the latest of all requests that write a key through those handles makes of it. Requests
that do not write the key are passed over. -/
def latest? (among : Nat → Bool) (key : Nat) (history : List SharedRequest) : Option Bool :=
  (history.filterMap (gives? among key)).getLast?

/-- A request that writes the key makes the earlier ones forgotten. -/
theorem latest?_concat (among : Nat → Bool) (key : Nat) (history : List SharedRequest)
    (request : SharedRequest) :
    latest? among key (history ++ [request]) =
      (request.gives? among key).or (latest? among key history) := by
  rw [latest?, List.filterMap_append, List.getLast?_append, latest?]
  cases given : request.gives? among key <;> simp [given]

/-- Only the handles through which a history writes matter. What counts among others may be
changed freely, which is used when a further request gives out a handle that no earlier write can
have used. -/
theorem latest?_congr (among others : Nat → Bool) (key : Nat) (history : List SharedRequest)
    (alike : ∀ writer request, .write writer request ∈ history →
      among writer = others writer) :
    latest? among key history = latest? others key history := by
  rw [latest?, latest?]
  congr 1
  apply List.filterMap_congr
  intro request member
  cases request with
  | join handle => rfl
  | separate => rfl
  | write writer request => simp only [gives?, alike writer request member]

/-- Without a handle that counts nothing is written. -/
theorem latest?_of_none (key : Nat) (history : List SharedRequest) :
    latest? (fun _ => false) key history = none := by
  rw [latest?, List.getLast?_eq_none_iff, List.filterMap_eq_nil_iff]
  intro request _
  cases request <;> rfl

/-- The latest request is one that writes the key, with none that does behind it. -/
theorem latest?_eq_some_iff (among : Nat → Bool) (key : Nat) (history : List SharedRequest)
    (pressed : Bool) :
    latest? among key history = some pressed ↔
      ∃ earlier writer request later, history = earlier ++ .write writer request :: later ∧
        among writer = true ∧ request.gives? key = some pressed ∧
        ∀ other again, .write other again ∈ later → among other = true →
          again.gives? key = none := by
  -- The latest request is the first that is met from the end, so the parts come reversed.
  rw [latest?, List.getLast?_filterMap, List.findSome?_eq_some_iff]
  constructor
  · rintro ⟨later, request, earlier, split, given, silent⟩
    cases request with
    | join handle => contradiction
    | separate => contradiction
    | write writer request =>
      obtain ⟨member, gives⟩ := Option.ite_none_right_eq_some.mp given
      refine ⟨earlier.reverse, writer, request, later.reverse, ?_, member, gives, ?_⟩
      · rw [← List.reverse_inj, split]
        simp
      · intro other again behind shared
        have nothing := silent _ (List.mem_reverse.mp behind)
        rwa [gives?, if_pos shared] at nothing
  · rintro ⟨earlier, writer, request, later, rfl, member, gives, silent⟩
    refine ⟨later.reverse, .write writer request, earlier.reverse, by simp, ?_, ?_⟩
    · rw [gives?, if_pos member, gives]
    · intro other behind
      cases other with
      | join handle => rfl
      | separate => rfl
      | write handle again =>
        simp only [gives?, ite_eq_right_iff]
        exact silent handle again (List.mem_reverse.mp behind)

end SharedRequest

namespace SharedKeypads

/-- Every request speaks of a handle that was given out before. The state moves on from request to
request, since what has been given out by then is what counts. -/
def Addressed (shared : SharedKeypads) : List SharedRequest → Prop
  | [] => True
  | request :: rest =>
    (∀ handle ∈ request.handle?, handle < shared.handles.length) ∧
      (shared.obey request).1.Addressed rest

/-- A handle was given out by joining it to another one. The number of a new handle is how many
there were before. -/
def JoinedTo (history : List SharedRequest) (child parent : Nat) : Prop :=
  ∃ earlier later, history = earlier ++ .join parent :: later ∧
    child = (start.after earlier).handles.length

/-- A handle descends from another one by being joined, or it is the same. Any number of handles
may lie in between. -/
def Descends (history : List SharedRequest) : Nat → Nat → Prop :=
  Relation.ReflTransGen (JoinedTo history)

/-- Two handles descend from a common one. One of them may be that one, so a handle is kin of
those that descend from it. Nothing is said of keypads. -/
def Kin (history : List SharedRequest) : Nat → Nat → Prop :=
  Relation.Join (Descends history)

/-- Histories compose. -/
theorem after_append (shared : SharedKeypads) (earlier later : List SharedRequest) :
    shared.after (earlier ++ later) = (shared.after earlier).after later :=
  List.foldl_append

/-- The last request of a history is obeyed behind all others. -/
theorem after_concat (shared : SharedKeypads) (history : List SharedRequest)
    (request : SharedRequest) :
    shared.after (history ++ [request]) = ((shared.after history).obey request).1 :=
  List.foldl_concat ..

/-- Handles are only ever added, behind those that there are. So the number of a handle stays its
name. -/
theorem handles_prefix_obey (shared : SharedKeypads) (request : SharedRequest) :
    shared.handles <+: (shared.obey request).1.handles := by
  cases request with
  | join handle => exact List.prefix_append ..
  | separate => exact List.prefix_append ..
  | write handle request => exact List.prefix_rfl

/-- Handles are only ever added in a history, since each of its requests does no more. -/
theorem handles_prefix_after (shared : SharedKeypads) (history : List SharedRequest) :
    shared.handles <+: (shared.after history).handles := by
  induction history generalizing shared with
  | nil => exact List.prefix_rfl
  | cons request rest inductionHypothesis =>
    exact (handles_prefix_obey shared request).trans (inductionHypothesis _)

/-- A handle that was given out belongs to its keypad for ever. It has to be given out: a handle
behind all others belongs to nothing yet. -/
theorem owner_of_grown (shared later : SharedKeypads) (handle : Nat)
    (grown : shared.handles <+: later.handles) (there : handle < shared.handles.length) :
    later.owner handle = shared.owner handle := by
  obtain ⟨added, grown⟩ := grown
  rw [owner, owner, ← grown, List.getElem?_append_left there, List.getElem?_eq_getElem there]
  rfl

/-- A request moves no handle to another keypad. -/
theorem owner_obey (shared : SharedKeypads) (request : SharedRequest) (handle : Nat)
    (there : handle < shared.handles.length) :
    (shared.obey request).1.owner handle = shared.owner handle :=
  owner_of_grown _ _ handle (handles_prefix_obey shared request) there

/-- A history speaks of handles that there are if its parts do, the later part behind the earlier
one. -/
theorem addressed_append (shared : SharedKeypads) (earlier later : List SharedRequest) :
    shared.Addressed (earlier ++ later) ↔
      shared.Addressed earlier ∧ (shared.after earlier).Addressed later := by
  induction earlier generalizing shared with
  | nil => simp [Addressed, after]
  | cons request rest inductionHypothesis =>
    simp only [List.cons_append, Addressed, inductionHypothesis, and_assoc]
    rfl

/-- A handle that a history speaks of was given out, and it still is at the end, because handles
are never taken back. -/
theorem lt_of_addressed (shared : SharedKeypads) (history : List SharedRequest)
    (addressed : shared.Addressed history) (request : SharedRequest) (member : request ∈ history)
    (handle : Nat) (spoken : handle ∈ request.handle?) :
    handle < (shared.after history).handles.length := by
  obtain ⟨earlier, later, rfl⟩ := List.append_of_mem member
  have there := ((addressed_append shared earlier _).mp addressed).2.1 handle spoken
  rw [after_append]
  exact Nat.lt_of_lt_of_le there (handles_prefix_after _ _).length_le

/-- What holds at the start and is kept by every request that speaks of handles that there are
holds behind every history of such requests. The induction is on the last request, so in its step
the history before it is known to be addressed and the handle of the request is known to be there.
-/
@[elab_as_elim]
theorem addressed_induction
    {motive : (history : List SharedRequest) → start.Addressed history → Prop}
    (first : motive [] trivial)
    (next : ∀ history request (before : start.Addressed history)
      (spoken : ∀ handle ∈ request.handle?, handle < (start.after history).handles.length),
      motive history before → motive (history ++ [request])
        ((addressed_append start history [request]).mpr ⟨before, spoken, trivial⟩))
    (history : List SharedRequest) (addressed : start.Addressed history) :
    motive history addressed := by
  induction history using List.reverseRecOn with
  | nil => exact first
  | append_singleton earlier request inductionHypothesis =>
    obtain ⟨before, spoken, _⟩ := (addressed_append _ _ _).mp addressed
    exact next earlier request before spoken (inductionHypothesis before)

/-- A handle that was added now comes behind all others, and belongs to the keypad it was added
for. -/
theorem owner_of_added (shared later : SharedKeypads) (keypad handle : Nat)
    (added : later.handles = shared.handles ++ [keypad]) (there : handle < later.handles.length)
    (fresh : ¬handle < shared.handles.length) :
    handle = shared.handles.length ∧ later.owner handle = keypad := by
  have latest : handle = shared.handles.length := by
    rw [added, List.length_append, List.length_singleton] at there
    omega
  refine ⟨latest, ?_⟩
  rw [owner, added, latest, List.getElem?_concat_length, Option.getD_some]

/-- The keypad that a handle belongs to behind a request: the one that it had, that of the handle
to which it is joined now, or a new one. A write gives out no handle and has only the first case.
-/
inductive Belongs (shared : SharedKeypads) : SharedRequest → Nat → Nat → Prop where
  | before (request : SharedRequest) (handle : Nat) (there : handle < shared.handles.length) :
      Belongs shared request handle (shared.owner handle)
  | joined (parent : Nat) :
      Belongs shared (.join parent) shared.handles.length (shared.owner parent)
  | separated : Belongs shared .separate shared.handles.length shared.keypads.length

/-- Behind a request every handle belongs to its keypad in one of these ways: it was there before,
or it is the one handle that the request has added. -/
theorem belongs_obey (shared : SharedKeypads) (request : SharedRequest) (handle : Nat)
    (there : handle < (shared.obey request).1.handles.length) :
    shared.Belongs request handle ((shared.obey request).1.owner handle) := by
  by_cases old : handle < shared.handles.length
  · rw [owner_obey shared request handle old]
    exact .before request handle old
  · cases request with
    | join parent =>
      obtain ⟨rfl, owned⟩ := owner_of_added shared _ _ handle rfl there old
      rw [owned]
      exact .joined parent
    | separate =>
      obtain ⟨rfl, owned⟩ := owner_of_added shared _ _ handle rfl there old
      rw [owned]
      exact .separated
    | write writer request => exact absurd there old

/-- Every handle belongs to a keypad that there is. It is here that requests have to speak of
handles that were given out, since a handle that is joined to nothing would belong to nothing. -/
theorem owner_lt (history : List SharedRequest) (addressed : start.Addressed history) :
    ∀ handle < (start.after history).handles.length,
      (start.after history).owner handle < (start.after history).keypads.length := by
  induction history, addressed using addressed_induction with
  | first => decide
  | next history request _ spoken inductionHypothesis =>
    intro handle there
    rw [after_concat] at there ⊢
    have belongs := belongs_obey _ request handle there
    generalize ((start.after history).obey request).1.owner handle = keypad at belongs ⊢
    cases belongs with
    | before request handle old =>
      apply Nat.lt_of_lt_of_le (inductionHypothesis handle old)
      cases request <;> simp [obey]
    | joined parent => exact inductionHypothesis parent (spoken parent rfl)
    | separated => simp [obey]

/-- A handle that was joined belongs to the keypad of the handle to which it was joined. It does
so behind the request, and neither of the two is moved later. -/
theorem owner_of_joinedTo (history : List SharedRequest) (addressed : start.Addressed history)
    (child parent : Nat) (joined : JoinedTo history child parent) :
    (start.after history).owner child = (start.after history).owner parent := by
  obtain ⟨earlier, later, rfl, rfl⟩ := joined
  obtain ⟨_, there, _⟩ := (addressed_append _ _ _).mp addressed
  have known : parent < (start.after earlier).handles.length := there parent rfl
  rw [after_append]
  have grown := handles_prefix_after ((start.after earlier).obey (.join parent)).1 later
  generalize start.after earlier = shared at *
  change ((shared.obey (.join parent)).1.after later).owner _ =
    ((shared.obey (.join parent)).1.after later).owner _
  rw [owner_of_grown _ _ _ grown (by simp [obey]), owner_of_grown _ _ parent grown
    (Nat.lt_of_lt_of_le known (handles_prefix_obey shared _).length_le),
    owner_obey shared _ parent known]
  simp [obey, owner]

/-- Descendants belong to the keypad of their forebear, by one joining after the other. -/
theorem owner_of_descends (history : List SharedRequest) (addressed : start.Addressed history)
    (handle forebear : Nat) (descends : Descends history handle forebear) :
    (start.after history).owner handle = (start.after history).owner forebear := by
  induction descends with
  | refl => rfl
  | tail _ joined inductionHypothesis =>
    exact inductionHypothesis.trans (owner_of_joinedTo history addressed _ _ joined)

/-- Requests that come later take nothing from a descent. -/
theorem descends_concat (history : List SharedRequest) (request : SharedRequest)
    (handle forebear : Nat) (descends : Descends history handle forebear) :
    Descends (history ++ [request]) handle forebear := by
  have kept : JoinedTo history ≤ JoinedTo (history ++ [request]) := by
    rintro child parent ⟨earlier, later, rfl, rfl⟩
    exact ⟨earlier, later ++ [request], by simp, rfl⟩
  exact Relation.ReflTransGen.mono kept _ _ descends

/-- All handles of one keypad descend from one of them. A new keypad is founded by the handle that
it is given out with; a handle that is joined later belongs to an old keypad and descends from its
founder through the handle to which it was joined. A number that is no keypad has no handles, so
anything founds it. -/
theorem exists_founder (history : List SharedRequest) (addressed : start.Addressed history) :
    ∀ keypad, ∃ founder, ∀ handle < (start.after history).handles.length,
      (start.after history).owner handle = keypad → Descends history handle founder := by
  induction history, addressed using addressed_induction with
  | first =>
    intro keypad
    refine ⟨0, fun handle there _ => ?_⟩
    rw [Nat.lt_one_iff.mp there]
    exact .refl
  | next history request before spoken inductionHypothesis =>
    intro keypad
    have later := descends_concat history request
    rw [after_concat]
    by_cases fresh : request = .separate ∧ keypad = (start.after history).keypads.length
    · -- A keypad that is given out just now has no older handle, so the new one founds it.
      obtain ⟨rfl, rfl⟩ := fresh
      refine ⟨(start.after history).handles.length, fun handle there owned => ?_⟩
      have belongs := belongs_obey _ _ handle there
      rw [owned] at belongs
      generalize same : (start.after history).keypads.length = new at belongs
      cases belongs with
      | before _ handle old => exact absurd same (Nat.ne_of_gt (owner_lt history before handle old))
      | separated => exact .refl
    · obtain ⟨founder, descend⟩ := inductionHypothesis keypad
      refine ⟨founder, fun handle there owned => ?_⟩
      have belongs := belongs_obey _ request handle there
      rw [owned] at belongs
      cases belongs with
      | before _ handle old => exact later _ _ (descend handle old rfl)
      | joined parent =>
        exact .head ⟨history, [], rfl, rfl⟩ (later _ _ (descend parent (spoken parent rfl) rfl))
      | separated => exact absurd ⟨rfl, rfl⟩ fresh

/-- Handles are kin exactly if they belong to one keypad. Kin do because a forebear hands its
keypad on; handles of one keypad are kin because they have its founder in common. -/
theorem kin_iff (history : List SharedRequest) (addressed : start.Addressed history)
    (left right : Nat) (leftThere : left < (start.after history).handles.length)
    (rightThere : right < (start.after history).handles.length) :
    Kin history left right ↔
      (start.after history).owner left = (start.after history).owner right := by
  constructor
  · rintro ⟨forebear, leftDescends, rightDescends⟩
    rw [owner_of_descends history addressed left forebear leftDescends,
      owner_of_descends history addressed right forebear rightDescends]
  · intro same
    obtain ⟨founder, descend⟩ := exists_founder history addressed
      ((start.after history).owner right)
    exact ⟨founder, descend left leftThere same, descend right rightThere rfl⟩

/-- A handle through which a history writes was given out. -/
theorem writer_lt (history : List SharedRequest) (addressed : start.Addressed history)
    (writer : Nat) (write : KeypadWrite) (member : .write writer write ∈ history) :
    writer < (start.after history).handles.length :=
  lt_of_addressed start history addressed _ member writer rfl

/-- A handle of a keypad that there is sees that keypad. -/
theorem getElem?_owner (shared : SharedKeypads) (handle : Nat)
    (owned : shared.owner handle < shared.keypads.length) :
    shared.keypads[shared.owner handle]? = some (shared.view handle) := by
  rw [view, List.getElem?_eq_getElem owned, Option.getD_some]

/-- What the latest request that wrote a key of a keypad, through any of its handles, makes of
it. -/
def latest? (history : List SharedRequest) (position key : Nat) : Option Bool :=
  SharedRequest.latest? (fun writer => (start.after history).owner writer = position) key history

/-- A further request that writes the key through a handle of the keypad is the latest one. The
handles of the earlier writes still belong to the same keypads. -/
theorem latest?_concat (history : List SharedRequest) (request : SharedRequest)
    (before : start.Addressed history) (position key : Nat) :
    latest? (history ++ [request]) position key =
      (request.gives? (fun writer =>
        ((start.after history).obey request).1.owner writer = position) key).or
        (latest? history position key) := by
  rw [latest?, after_concat, SharedRequest.latest?_concat, latest?]
  congr 1
  apply SharedRequest.latest?_congr
  intro writer write member
  rw [owner_obey _ request writer (writer_lt history before writer write member)]

/-- Nothing was written to a keypad that is not there, since every handle belongs to one that is.
-/
theorem latest?_of_beyond (history : List SharedRequest) (addressed : start.Addressed history)
    (position key : Nat) (beyond : (start.after history).keypads.length ≤ position) :
    latest? history position key = none := by
  rw [latest?, ← SharedRequest.latest?_of_none key history]
  apply SharedRequest.latest?_congr
  intro writer write member
  apply decide_eq_false
  rintro rfl
  have owned := owner_lt history addressed writer (writer_lt history addressed writer write member)
  exact Nat.not_lt.mpr beyond owned

/-- Behind a history every key of a keypad is as the latest request left it that wrote the key
through a handle of the keypad. The induction is on the last request, for all keypads at once:
joining changes none of them, a new one has nothing pressed and nothing written, and a write
changes the keypad of its handle and no other. -/
theorem isPressed_keypad (history : List SharedRequest) (addressed : start.Addressed history)
    (key : Nat) :
    ∀ position keypad, (start.after history).keypads[position]? = some keypad →
      keypad.isPressed key = (latest? history position key).getD false := by
  induction history, addressed using addressed_induction with
  | first =>
    intro position keypad found
    obtain ⟨-, rfl⟩ := List.getElem?_eq_some_iff.mp found
    simp [after, start, latest?, SharedRequest.latest?]
  | next history request before spoken inductionHypothesis =>
    intro position keypad found
    rw [after_concat] at found
    rw [latest?_concat history request before]
    cases request with
    | join parent => exact inductionHypothesis position keypad found
    | separate =>
      by_cases old : position < (start.after history).keypads.length
      · rw [obey, List.getElem?_append_left old] at found
        exact inductionHypothesis position keypad found
      · have beyond := Nat.not_lt.mp old
        rw [obey, List.getElem?_append_right beyond, List.getElem?_singleton,
          Option.ite_none_right_eq_some] at found
        rw [latest?_of_beyond history before position key beyond, ← Option.some.inj found.2]
        exact Keypad.isPressed_released key
    | write writer write =>
      have owned := owner_lt history before writer (spoken writer rfl)
      simp only [obey, List.getElem?_set] at found
      rw [SharedRequest.gives?, owner_write]
      -- Only the keypad of the handle is written, and only its history has one write more.
      by_cases same : (start.after history).owner writer = position
      · subst same
        rw [if_pos rfl, if_pos owned, Option.some.injEq] at found
        have earlier := inductionHypothesis _ _ (getElem?_owner _ writer owned)
        rw [← found, KeypadWrite.isPressed_apply, earlier, if_pos (decide_eq_true rfl)]
        cases write.gives? key <;> rfl
      · rw [if_neg same] at found
        rw [if_neg (by simpa using same), Option.none_or]
        exact inductionHypothesis position keypad found

/-- Behind a history a handle sees a key pressed exactly if its family wrote the key and did so
last by pressing it. This is the law of its keypad, with the handles of that keypad replaced by
kin. -/
theorem isPressed_view_iff (history : List SharedRequest) (addressed : start.Addressed history)
    (handle : Nat) (there : handle < (start.after history).handles.length) (key : Nat) :
    ((start.after history).view handle).isPressed key = true ↔
      ∃ earlier writer write later, history = earlier ++ .write writer write :: later ∧
        Kin history writer handle ∧ write.gives? key = some true ∧
        ∀ other again, .write other again ∈ later → Kin history other handle →
          again.gives? key = none := by
  have kin (writer : Nat) (write : KeypadWrite) (member : .write writer write ∈ history) :
      decide ((start.after history).owner writer = (start.after history).owner handle) = true ↔
        Kin history writer handle := by
    rw [decide_eq_true_iff, kin_iff history addressed writer handle
      (writer_lt history addressed writer write member) there]
  have seen := isPressed_keypad history addressed key _ _
    (getElem?_owner _ handle (owner_lt history addressed handle there))
  have latest (found : Option Bool) : found.getD false = true ↔ found = some true := by
    cases found <;> simp
  rw [seen, latest, latest?, SharedRequest.latest?_eq_some_iff]
  refine exists_congr fun earlier => exists_congr fun writer => exists_congr fun write =>
    exists_congr fun later => and_congr_right fun split => ?_
  have behind (other : Nat) (again : KeypadWrite) (member : .write other again ∈ later) :
      .write other again ∈ history := by
    rw [split]
    exact List.mem_append_right _ (List.mem_cons_of_mem _ member)
  rw [kin writer write (by simp [split])]
  refine and_congr_right fun _ => and_congr_right fun _ => forall₂_congr fun other again =>
    forall_congr' fun member => ?_
  rw [kin other again (behind other again member)]

/-- A write that leaves the keypad of its handle leaves everything, also if the handle was never
given out. -/
theorem obey_write_of_unchanged (shared : SharedKeypads) (handle : Nat) (write : KeypadWrite)
    (reply : WriteReply)
    (unchanged : write.apply (shared.view handle) = (shared.view handle, reply)) :
    shared.obey (.write handle write) = (shared, reply) := by
  have same : shared.keypads.set (shared.owner handle) (shared.view handle) = shared.keypads := by
    apply List.ext_getElem?
    intro position
    rw [List.getElem?_set]
    by_cases here : shared.owner handle = position
    · subst here
      by_cases inside : shared.owner handle < shared.keypads.length
      · simp [view, inside]
      · simp [inside]
    · rw [if_neg here]
  simp only [obey, unchanged, same]

/-- Shared keypads behind any history that only speaks of handles that were given out. Kin see the
same keys. A key is pressed for a handle exactly if the latest write that reached the key through
the handle's family pressed it, and writes through other families are not seen. A number that is
no key is refused by that number, and a host character without a key is answered as such; neither
changes anything. A host character is accepted exactly if its lower-case form is in the host
layout, and every key has one that reaches it.

Kin are turned into handles of one keypad and back, by forebears and founders; the key of a keypad
is then settled by the latest write, by induction on the history. The hypothesis excludes requests
that no host can make, as a handle has to exist to be joined or written through. The last four
parts are about a single write. -/
theorem families_share (history : List SharedRequest) (addressed : start.Addressed history) :
    let shared := start.after history
    (∀ left right, Kin history left right → shared.view left = shared.view right) ∧
      (∀ handle < shared.handles.length, ∀ key,
        (shared.view handle).isPressed key = true ↔
          ∃ earlier writer write later, history = earlier ++ .write writer write :: later ∧
            Kin history writer handle ∧ write.gives? key = some true ∧
            ∀ other again, .write other again ∈ later → Kin history other handle →
              again.gives? key = none) ∧
      (∀ writer < shared.handles.length, ∀ handle < shared.handles.length,
        ¬Kin history writer handle → ∀ write,
          (shared.obey (.write writer write)).1.view handle = shared.view handle) ∧
      (∀ writer number pressed, 16 ≤ number →
        shared.obey (.write writer (.key number pressed)) =
          (shared, .refused (.noSuchKey number))) ∧
      (∀ writer char pressed, char.toLower ∉ Keypad.hostLayout.flatten →
        shared.obey (.write writer (.hostKey char pressed)) = (shared, .unbound)) ∧
      (∀ writer char pressed, (shared.obey (.write writer (.hostKey char pressed))).2 = .written ↔
        char.toLower ∈ Keypad.hostLayout.flatten) ∧
      ∀ key < 16, ∃ char, ∀ writer < shared.handles.length, ∀ pressed,
        ((shared.obey (.write writer (.hostKey char pressed))).1.view writer).isPressed key =
          pressed := by
  intro shared
  have owned := owner_lt history addressed
  refine ⟨?_, isPressed_view_iff history addressed, ?_, ?_, ?_, ?_, ?_⟩
  · rintro left right ⟨forebear, leftDescends, rightDescends⟩
    rw [view, view, owner_of_descends history addressed left forebear leftDescends,
      owner_of_descends history addressed right forebear rightDescends]
  · intro writer writerThere handle there apart write
    rw [view_write _ _ _ _ (owned writer writerThere), if_neg]
    intro same
    exact apart ((kin_iff history addressed writer handle writerThere there).mpr same.symm)
  · intro writer number pressed outside
    exact obey_write_of_unchanged shared writer _ _
      (KeypadWrite.apply_key_of_outside number pressed _ outside)
  · intro writer char pressed absent
    exact obey_write_of_unchanged shared writer _ _
      (KeypadWrite.apply_hostKey_of_unbound char pressed _
        ((Keypad.ofHost?_eq_none_iff char).mpr absent))
  · intro writer char pressed
    exact KeypadWrite.reply_hostKey_iff char pressed _
  · intro key inside
    obtain ⟨char, stands⟩ := Keypad.exists_ofHost?_eq key inside
    refine ⟨char, fun writer there pressed => ?_⟩
    rw [view_write _ _ _ _ (owned writer there), if_pos rfl, KeypadWrite.isPressed_apply,
      KeypadWrite.gives?, if_pos stands, Option.getD_some]

/-- Four handles, of which the third has a keypad of its own: the others are joined in a row. -/
def relay : List SharedRequest :=
  [.join 0, .separate, .write 1 (.hostKey 'W' true), .write 2 (.key 0x5 false), .join 1,
    .write 0 (.key 16 true), .write 3 (.hostKey 'p' true), .write 3 (.key 0x4 false)]

/-- The last handle sees what was written through the second before it was given out, and so
does the first. The third sees nothing of it, and what was written through the third to the
same key later is not seen by the others. -/
theorem relay_shared :
    let shared := start.after relay
    start.Addressed relay ∧ Kin relay 3 0 ∧ shared.view 3 = shared.view 0 ∧
      (shared.view 3).isPressed 0x5 = true ∧ ¬Kin relay 2 3 ∧
      (shared.view 2).isPressed 0x5 = false ∧
      (shared.obey (.write 2 .releaseAll)).1.view 3 = shared.view 3 := by
  have addressed : start.Addressed relay := by
    simp [relay, Addressed, SharedRequest.handle?, start, obey]
  have joined : Descends relay 3 1 := .single ⟨relay.take 4, relay.drop 5, rfl, by decide⟩
  have joinedBefore : Descends relay 1 0 := .single ⟨[], relay.drop 1, rfl, by decide⟩
  have kin : Kin relay 3 0 := ⟨0, joined.trans joinedBefore, .refl⟩
  have strangers : ¬Kin relay 2 3 := by
    rw [kin_iff relay addressed 2 3 (by decide) (by decide)]
    decide
  obtain ⟨alike, pressed, apart, _⟩ := families_share relay addressed
  refine ⟨addressed, kin, alike 3 0 kin, ?_, strangers, by decide, ?_⟩
  · refine (pressed 3 (by decide) 0x5).mpr
      ⟨relay.take 2, 1, .hostKey 'W' true, relay.drop 3, rfl, ⟨1, .refl, joined⟩, by decide, ?_⟩
    intro other again behind related
    simp only [relay, List.drop_succ_cons, List.drop_zero, List.mem_cons, reduceCtorEq,
      SharedRequest.write.injEq, List.not_mem_nil, false_or, or_false] at behind
    rcases behind with ⟨rfl, rfl⟩ | ⟨rfl, rfl⟩ | ⟨rfl, rfl⟩ | ⟨rfl, rfl⟩
    · exact absurd related strangers
    · decide
    · decide
    · decide
  · exact apart 2 (by decide) 3 (by decide) strangers .releaseAll

end SharedKeypads

end Chip8
