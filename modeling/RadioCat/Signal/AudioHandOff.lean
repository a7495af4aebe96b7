import RadioCat.Trace.Machine
import RadioCat.Trace.Newest

/-!
This module contains the hand-off of audio frames from the reader thread to a console: a slot for
the newest frame and the reason of the end, behind one lock, and a condition variable.
-/

namespace Signal

open Trace

namespace AudioHandOff

variable {φ : Type}

inductive IoError where
  | unexpectedEof
  | other (message : String)
  deriving DecidableEq, Repr

def describe : IoError → String
  | .unexpectedEof => "the peer closed the connection"
  | .other message => message

/-- Where the reader thread is: at the top of its loop, in the read of a block, before the lock of
the slot with a frame, or in `finish` before the lock. -/
inductive Worker (φ : Type) where
  | top
  | reading
  | depositing (frame : φ)
  | finishing (reason : String)
  | finished
  deriving DecidableEq, Repr

/-- A console is inside `blocking_next_frame` while it is asleep, and when it is woken and has not
got the lock again. -/
inductive Consumer where
  | idle
  | asleep
  | woken
  | gone
  deriving DecidableEq, Repr

structure State (φ : Type) where
  worker : Worker φ
  consumer : Consumer
  frame : Option φ
  ended : Option String
  dropped : Nat
  stop : Bool
  deriving DecidableEq, Repr

inductive Result (φ : Type) where
  | frame (frame : φ)
  | nothing
  | closed (reason : String)
  deriving DecidableEq, Repr

inductive Event (φ : Type) where
  | produced (frame : φ)
  | returned (result : Result φ)
  deriving DecidableEq, Repr

/-- A block size and the outcome of a read come from outside. A condition variable may also wake a
sleeper that nobody notified. -/
inductive Action (φ : Type) where
  | turn (blockSize : Nat)
  | read (outcome : Except IoError (Option φ))
  | deposit
  | finish
  | tryNextFrame
  | blockingNextFrame
  | wake
  | resume
  | drop

def Worker.turn (stop : Bool) (blockSize : Nat) : Worker φ :=
  if stop then
    .finishing "closed by the consumer"
  else if blockSize = 0 then
    .finishing "block size of zero"
  else
    .reading

namespace State

def spawn : State φ where
  worker := .top
  consumer := .idle
  frame := none
  ended := none
  dropped := 0
  stop := false

/-- There is one consumer at most, so that `notify_one` and `notify_all` are the same. -/
def notify (s : State φ) : State φ :=
  { s with consumer := if s.consumer = .asleep then .woken else s.consumer }

def deposit (s : State φ) (frame : φ) : State φ :=
  { s with
    dropped := if s.frame.isSome then s.dropped + 1 else s.dropped
    frame := some frame }.notify

def finish (s : State φ) (reason : String) : State φ :=
  { s with ended := s.ended.or (some reason) }.notify

/-- What both calls do first: the last frame is drained before the end is reported. -/
def look (s : State φ) : Option (Result φ) × State φ :=
  match s.frame, s.ended with
  | some frame, _ => (some (.frame frame), { s with frame := none })
  | none, some reason => (some (.closed reason), s)
  | none, none => (none, s)

def tryNextFrame (s : State φ) : Result φ × State φ :=
  (s.look.1.getD .nothing, s.look.2)

/-- A turn of the loop of `blocking_next_frame`. The wait gives the lock up and falls asleep in one
step. -/
def blockingNextFrame (s : State φ) : Option (Result φ) × State φ :=
  (s.look.1, { s.look.2 with consumer := if s.look.1.isSome then .idle else .asleep })

end State

/-- The critical sections are one step each, for everything they touch is behind the one lock. -/
def handOff : Machine (State φ) (Action φ) (Event φ) := fun s a =>
  match a, s.worker, s.consumer with
  | .turn blockSize, .top, _ => some ([], { s with worker := .turn s.stop blockSize })
  | .read (.error e), .reading, _ => some ([], { s with worker := .finishing (describe e) })
  -- the pipeline wants more samples
  | .read (.ok none), .reading, _ => some ([], { s with worker := .top })
  | .read (.ok (some frame)), .reading, _ =>
    some ([.produced frame], { s with worker := .depositing frame })
  | .deposit, .depositing frame, _ => some ([], { s.deposit frame with worker := .top })
  | .finish, .finishing reason, _ => some ([], { s.finish reason with worker := .finished })
  | .tryNextFrame, _, .idle => some ([.returned s.tryNextFrame.1], s.tryNextFrame.2)
  | .blockingNextFrame, _, .idle =>
    some (s.blockingNextFrame.1.toList.map .returned, s.blockingNextFrame.2)
  | .wake, _, .asleep => some ([], { s with consumer := .woken })
  | .resume, _, .woken =>
    some (s.blockingNextFrame.1.toList.map .returned, s.blockingNextFrame.2)
  | .drop, _, .idle => some ([], { s with consumer := .gone, stop := true })
  | _, _, _ => none

def Event.frame : Event φ → Option φ
  | .produced frame => some frame
  | _ => none

def Event.returnedFrame : Event φ → Option φ
  | .returned (.frame frame) => some frame
  | _ => none

def produced (log : List (Event φ)) : List φ :=
  told Event.frame log

def returned (log : List (Event φ)) : List φ :=
  told Event.returnedFrame log

def Worker.inHand : Worker φ → List φ
  | .depositing frame => [frame]
  | _ => []

/-- The laws about the reports of the end. -/
structure Reports (log : List (Event φ)) : Prop where
  drained : Each (fun e older => ∀ reason, e = .returned (.closed reason) →
    (returned older).getLast? = (produced older).getLast?) log
  terminal : Each (fun e older => ∀ reason result, .returned (.closed reason) ∈ older →
    e = .returned result → result = .closed reason) log

/-- What is promised of every run: of its log, of the state it leads to, and of the next step. -/
structure Lawful (log : List (Event φ)) (s : State φ) : Prop extends Reports log where
  ordered : (returned log).Sublist (produced log)
  conserved : s.worker.inHand = [] →
    (produced log).length = (returned log).length + s.dropped + s.frame.toList.length
  awake : s.consumer = .asleep → s.frame = none ∧ s.ended = none
  woken : ∀ a evs t, a = .deposit ∨ a = .finish → handOff s a = some (evs, t) →
    s.consumer = .asleep → t.consumer = .woken

/-- All that a step can be. -/
inductive Move (s : State φ) : List (Event φ) → State φ → Prop where
  | goes {w : Worker φ} (free : s.worker.inHand = []) (running : s.worker ≠ .finished)
      (free' : w.inHand = [])
    : Move s [] { s with worker := w }
  | produces {frame : φ} (reading : s.worker = .reading)
    : Move s [.produced frame] { s with worker := .depositing frame }
  | deposits {frame : φ} (depositing : s.worker = .depositing frame)
    : Move s [] { s.deposit frame with worker := .top }
  | finishes {reason : String} (finishing : s.worker = .finishing reason)
    : Move s [] { s.finish reason with worker := .finished }
  | tries (idle : s.consumer = .idle) : Move s [.returned s.tryNextFrame.1] s.tryNextFrame.2
  | blocks : Move s (s.blockingNextFrame.1.toList.map .returned) s.blockingNextFrame.2
  | stirs {c : Consumer} {stop : Bool} (awake : c ≠ .asleep)
    : Move s [] { s with consumer := c, stop }

theorem inHand_turn (stop : Bool) (blockSize : Nat)
    : (Worker.turn stop blockSize : Worker φ).inHand = [] := by
  unfold Worker.turn
  split
  next => rfl
  next => split <;> rfl

theorem handOff_move {s t : State φ} {a : Action φ} {evs : List (Event φ)}
    (h : handOff s a = some (evs, t)) : Move s evs t := by
  unfold handOff at h
  split at h <;> cases h
  next hworker =>
    exact .goes (by rw [hworker]; rfl) (by rw [hworker]; nofun) (inHand_turn _ _)
  next hworker => exact .goes (by rw [hworker]; rfl) (by rw [hworker]; nofun) rfl
  next hworker => exact .goes (by rw [hworker]; rfl) (by rw [hworker]; nofun) rfl
  next hworker => exact .produces hworker
  next hworker => exact .deposits hworker
  next hworker => exact .finishes hworker
  next hidle => exact .tries hidle
  next => exact .blocks
  next => exact .stirs nofun
  next => exact .blocks
  next => exact .stirs nofun

section

variable {log : List (Event φ)} {s t : State φ}

theorem look_cases (s : State φ)
    : (∃ frame, s.frame = some frame ∧ s.look = (some (.frame frame), { s with frame := none })) ∨
      (∃ reason, s.frame = none ∧ s.ended = some reason ∧ s.look = (some (.closed reason), s)) ∨
      s.frame = none ∧ s.ended = none ∧ s.look = (none, s) := by
  unfold State.look
  split
  next frame hframe => exact .inl ⟨frame, hframe, rfl⟩
  next reason hframe hended => exact .inr (.inl ⟨reason, hframe, hended, rfl⟩)
  next hframe hended => exact .inr (.inr ⟨hframe, hended, rfl⟩)

structure Inv (log : List (Event φ)) (s : State φ) : Prop where
  accounts : ∃ deposited, produced log = deposited ++ s.worker.inHand ∧
    Accounts deposited (returned log) s.frame s.dropped
  ended : s.ended ≠ none → s.worker = .finished
  asleep : s.consumer = .asleep → s.frame = none ∧ s.ended = none
  closed : ∀ reason, .returned (.closed reason) ∈ log → s.frame = none ∧ s.ended = some reason

theorem Inv.stir (h : Inv log s) {c : Consumer} {stop : Bool}
    (hc : c = .asleep → s.frame = none ∧ s.ended = none)
    : Inv log { s with consumer := c, stop } := by
  exact ⟨h.accounts, h.ended, hc, h.closed⟩

theorem Inv.take {frame : φ} (h : Inv log s) (hframe : s.frame = some frame)
    : Inv (.returned (.frame frame) :: log) { s with frame := none } := by
  rcases h.accounts with ⟨deposited, hproduced, haccounts⟩
  constructor
  . refine ⟨deposited, ?_, ?_⟩
    . rw [← hproduced, produced, told_cons]
      exact List.append_nil _
    . rw [hframe] at haccounts
      rw [returned, told_cons]
      exact haccounts.take
  . exact h.ended
  . intro hasleep
    exact ⟨rfl, (h.asleep hasleep).2⟩
  . intro reason hmem
    have hlog : .returned (.closed reason) ∈ log := by simpa using hmem
    exact ⟨rfl, (h.closed reason hlog).2⟩

theorem Inv.report (h : Inv log s) (result : Result φ) (hframe : ∀ frame, result ≠ .frame frame)
    (hclosed : ∀ reason, result = .closed reason → s.frame = none ∧ s.ended = some reason)
    : Inv (.returned result :: log) s := by
  rcases h.accounts with ⟨deposited, hproduced, haccounts⟩
  constructor
  . refine ⟨deposited, ?_, ?_⟩
    . rw [← hproduced, produced, told_cons]
      exact List.append_nil _
    . have hnone : Event.returnedFrame (.returned result) = none := by
        cases result with
        | frame frame => exact absurd rfl (hframe frame)
        | nothing => rfl
        | closed reason => rfl
      rw [returned, told_cons, hnone, Option.toList_none, List.append_nil]
      exact haccounts
  . exact h.ended
  . exact h.asleep
  . intro reason hmem
    rw [List.mem_cons, Event.returned.injEq] at hmem
    rcases hmem with hresult | hlog
    . exact hclosed reason hresult.symm
    . exact h.closed reason hlog

theorem Inv.deposit {frame : φ} (h : Inv log s) (hworker : s.worker = .depositing frame)
    : Inv log { s.deposit frame with worker := .top } := by
  rcases h.accounts with ⟨deposited, hproduced, haccounts⟩
  have hended : s.ended = none := by
    by_contra hne
    rw [h.ended hne] at hworker
    cases hworker
  constructor
  . refine ⟨deposited ++ [frame], ?_, ?_⟩
    . rw [hproduced, hworker]
      exact (List.append_nil _).symm
    . have hdropped : (s.deposit frame).dropped = s.dropped + s.frame.toList.length := by
        cases hframe : s.frame <;> simp [State.deposit, State.notify, hframe]
      simp only [hdropped]
      exact haccounts.deposit frame
  . intro hne
    exact absurd hended hne
  . intro hasleep
    simp only [State.deposit, State.notify] at hasleep
    split at hasleep
    next => cases hasleep
    next hnot => exact absurd hasleep hnot
  . intro reason hmem
    rw [(h.closed reason hmem).2] at hended
    cases hended

theorem Inv.finish {reason : String} (h : Inv log s) (hworker : s.worker = .finishing reason)
    : Inv log { s.finish reason with worker := .finished } := by
  rcases h.accounts with ⟨deposited, hproduced, haccounts⟩
  have hended : s.ended = none := by
    by_contra hne
    rw [h.ended hne] at hworker
    cases hworker
  constructor
  . refine ⟨deposited, ?_, haccounts⟩
    rw [hproduced, hworker]
    rfl
  . intro _
    rfl
  . intro hasleep
    simp only [State.finish, State.notify] at hasleep
    split at hasleep
    next => cases hasleep
    next hnot => exact absurd hasleep hnot
  . intro reason hmem
    rw [(h.closed reason hmem).2] at hended
    cases hended

theorem Inv.step {evs : List (Event φ)} (h : Inv log s) (hmove : Move s evs t)
    : Inv (evs.reverse ++ log) t := by
  cases hmove with
  | goes free running free' =>
    rcases h.accounts with ⟨deposited, hproduced, haccounts⟩
    refine ⟨⟨deposited, ?_, haccounts⟩, ?_, h.asleep, h.closed⟩
    . rw [List.reverse_nil, List.nil_append, hproduced, free, free']
    . intro hne
      exact absurd (h.ended hne) running
  | @produces frame reading =>
    rcases h.accounts with ⟨deposited, hproduced, haccounts⟩
    rw [reading] at hproduced
    refine ⟨⟨deposited, ?_, ?_⟩, ?_, h.asleep, ?_⟩
    . rw [List.reverse_singleton, List.singleton_append, produced, told_cons]
      rw [produced] at hproduced
      rw [hproduced]
      exact congrArg (· ++ [frame]) (List.append_nil deposited)
    . rw [List.reverse_singleton, List.singleton_append, returned, told_cons]
      simpa [returned, Event.returnedFrame] using haccounts
    . intro hne
      rw [h.ended hne] at reading
      cases reading
    . simpa using h.closed
  | deposits depositing => exact h.deposit depositing
  | finishes finishing => exact h.finish finishing
  | tries idle =>
    unfold State.tryNextFrame
    rcases look_cases s with ⟨frame, hframe, hlook⟩ | ⟨reason, hframe, hended, hlook⟩ |
      ⟨hframe, hended, hlook⟩
    . rw [hlook]
      exact h.take hframe
    . rw [hlook]
      apply h.report (.closed reason) nofun
      rintro reason' ⟨⟩
      exact ⟨hframe, hended⟩
    . rw [hlook]
      exact h.report .nothing nofun nofun
  | blocks =>
    unfold State.blockingNextFrame
    rcases look_cases s with ⟨frame, hframe, hlook⟩ | ⟨reason, hframe, hended, hlook⟩ |
      ⟨hframe, hended, hlook⟩
    . rw [hlook]
      exact (h.take hframe).stir nofun
    . rw [hlook]
      have hreport : Inv (.returned (.closed reason) :: log) s := by
        apply h.report (.closed reason) nofun
        rintro reason' ⟨⟩
        exact ⟨hframe, hended⟩
      exact hreport.stir nofun
    . rw [hlook]
      exact h.stir fun _ => ⟨hframe, hended⟩
  | stirs awake => exact h.stir fun hasleep => absurd hasleep awake

theorem Move.events {evs : List (Event φ)} (hmove : Move s evs t)
    : evs = [] ∨ (∃ frame, evs = [.produced frame]) ∨
      ∃ result, evs = [.returned result] ∧
        ∀ reason, result = .closed reason ↔ s.frame = none ∧ s.ended = some reason := by
  cases hmove with
  | goes | deposits | finishes | stirs => exact .inl rfl
  | @produces frame => exact .inr (.inl ⟨frame, rfl⟩)
  | tries =>
    refine .inr (.inr ⟨_, rfl, ?_⟩)
    unfold State.tryNextFrame
    rcases look_cases s with ⟨frame, hframe, hlook⟩ | ⟨reason, hframe, hended, hlook⟩ |
      ⟨hframe, hended, hlook⟩
    . simp [hlook, hframe]
    . simp [hlook, hframe, hended]
    . simp [hlook, hframe, hended]
  | blocks =>
    unfold State.blockingNextFrame
    rcases look_cases s with ⟨frame, hframe, hlook⟩ | ⟨reason, hframe, hended, hlook⟩ |
      ⟨hframe, hended, hlook⟩
    . exact .inr (.inr ⟨.frame frame, by simp [hlook], by simp [hframe]⟩)
    . exact .inr (.inr ⟨.closed reason, by simp [hlook], by simp [hframe, hended]⟩)
    . exact .inl (by simp [hlook])

theorem Inv.drained (h : Inv log s) {reason : String} (hframe : s.frame = none)
    (hended : s.ended = some reason) : (returned log).getLast? = (produced log).getLast? := by
  rcases h.accounts with ⟨deposited, hproduced, haccounts⟩
  have hworker := h.ended (by rw [hended]; nofun)
  rw [hframe] at haccounts
  rw [hproduced, hworker, haccounts.last_returned]
  exact congrArg List.getLast? (List.append_nil deposited).symm

theorem Inv.reports {evs : List (Event φ)} (h : Inv log s) (hreports : Reports log)
    (hmove : Move s evs t) : Reports (evs.reverse ++ log) := by
  rcases hmove.events with rfl | ⟨frame, rfl⟩ | ⟨result, rfl, hclosed⟩
  . exact hreports
  . exact ⟨⟨nofun, hreports.drained⟩, ⟨nofun, hreports.terminal⟩⟩
  . constructor
    . refine ⟨?_, hreports.drained⟩
      rintro reason ⟨⟩
      rcases (hclosed reason).mp rfl with ⟨hframe, hended⟩
      exact h.drained hframe hended
    . refine ⟨?_, hreports.terminal⟩
      rintro reason result' hmem ⟨⟩
      exact (hclosed reason).mpr (h.closed reason hmem)

theorem handOff_wakes {a : Action φ} {evs : List (Event φ)} (ha : a = .deposit ∨ a = .finish)
    (h : handOff s a = some (evs, t)) (hasleep : s.consumer = .asleep) : t.consumer = .woken := by
  rcases ha with rfl | rfl
  . cases hworker : s.worker with
    | depositing frame =>
      simp only [handOff, hworker, hasleep, Option.some.injEq, Prod.mk.injEq] at h
      rw [← h.2]
      simp [State.deposit, State.notify, hasleep]
    | _ => simp [handOff, hworker, hasleep] at h
  . cases hworker : s.worker with
    | finishing reason =>
      simp only [handOff, hworker, hasleep, Option.some.injEq, Prod.mk.injEq] at h
      rw [← h.2]
      simp [State.finish, State.notify, hasleep]
    | _ => simp [handOff, hworker, hasleep] at h

/-- The hand-off keeps its promises in every interleaving of the reader thread and a console. -/
theorem handed_off (hruns : Machine.Runs handOff anything State.spawn log s) : Lawful log s := by
  have hinv : Inv log s ∧ Reports log := by
    apply Machine.Runs.invariant (fun log s => Inv log s ∧ Reports log) _ _ hruns
    . refine ⟨⟨⟨[], rfl, Accounts.empty⟩, ?_, nofun, nofun⟩, ⟨trivial, trivial⟩⟩
      intro hne
      exact absurd rfl hne
    . intro log s a evs t h _ htaken
      have hmove := handOff_move htaken
      exact ⟨h.1.step hmove, h.1.reports h.2 hmove⟩
  rcases hinv with ⟨hinv, hreports⟩
  rcases hinv.accounts with ⟨deposited, hproduced, haccounts⟩
  refine ⟨hreports, ?_, ?_, hinv.asleep, ?_⟩
  . rw [hproduced]
    exact haccounts.sublist_returned.trans (List.sublist_append_left _ _)
  . intro hfree
    have hcount := haccounts.count
    rw [hproduced, hfree, List.append_nil]
    omega
  . intro a evs t ha htaken hasleep
    exact handOff_wakes ha htaken hasleep

end

/-- A console sleeps through the first frame's arrival, misses the second, gets the third, and then
hears twice that the peer is gone. -/
theorem handed_off_three_frames
    : ∃ (log : List (Event Nat)) (s : State Nat),
        Machine.Runs handOff anything State.spawn log s ∧ produced log = [1, 2, 3] ∧
          returned log = [1, 3] ∧ s.dropped = 1 ∧ Lawful log s := by
  let script : List (Action Nat) :=
    [.blockingNextFrame, .turn 4, .read (.ok (some 1)), .deposit, .resume, .turn 4,
      .read (.ok (some 2)), .deposit, .turn 4, .read (.ok (some 3)), .deposit, .tryNextFrame,
      .turn 4, .read (.error .unexpectedEof), .finish, .tryNextFrame, .blockingNextFrame]
  have hruns := Machine.runs_play script (rfl : handOff.play anything State.spawn script = _)
  exact ⟨_, _, hruns, rfl, rfl, rfl, handed_off hruns⟩

end AudioHandOff

end Signal
